import ModbusMaster.Proofs.Reporting.Pending
import ModbusMaster.Proofs.Stack.Run
namespace ModbusMaster

-- What each activity of a station changes, and what of it is seen.

def Note.shown? : Note → Option Note
  | .line .. => none
  | n => some n

def shown (log : List Logged) : List Note := log.filterMap fun l => l.note.shown?

@[simp] theorem shown_append (a b : List Logged) : shown (a ++ b) = shown a ++ shown b := List.filterMap_append

namespace Reporter
variable {p : Reporter} {c : Completion}

theorem notes_answers (p : Reporter) (c : Completion) :
    notes (p.answers c) = (p.process c).1.toList.map Note.result := by
  unfold answers process
  cases p.pending.take? c.app <;> rfl

theorem notes_drainedUpTo (n : Nat) (p : Reporter) :
    notes (drainedUpTo n p) = (drainUpTo n p).2.1.map Note.result := by
  induction n generalizing p with
  | zero => rfl
  | succ n ih =>
    unfold drainedUpTo drainUpTo
    cases taken : p.queue.takeNow with
    | mk first q =>
      cases first with
      | none => rfl
      | some c => simp only [notes_append,notes_answers,ih,List.map_append]

theorem told_answers (p : Reporter) (c : Completion) : told (p.answers c) = [] := by
  unfold answers
  cases p.pending.take? c.app <;> rfl

theorem accepted_answers (p : Reporter) (c : Completion) : accepted (p.answers c) = [] := by
  unfold answers
  cases p.pending.take? c.app <;> rfl

theorem told_drainedUpTo (n : Nat) (p : Reporter) : told (drainedUpTo n p) = [] := by
  fun_induction drainedUpTo n p with
  | case3 n p c q taken ih => rw [told_append,told_answers,ih]; rfl
  | _ => rfl

theorem accepted_drainedUpTo (n : Nat) (p : Reporter) : accepted (drainedUpTo n p) = [] := by
  fun_induction drainedUpTo n p with
  | case3 n p c q taken ih => rw [accepted_append,accepted_answers,ih]; rfl
  | _ => rfl

end Reporter

namespace Station
variable {s t : Station} {key : Peer}

theorem wake_same (s : Station) (t : Task) : s.wake t = {s with agenda:=(s.wake t).agenda} := by
  unfold wake
  split <;> rfl

theorem wakeAll_same (s : Station) (ts : List Task) : s.wakeAll ts = {s with agenda:=(s.wakeAll ts).agenda} := by
  unfold wakeAll
  induction ts generalizing s with
  | nil => rfl
  | cons t ts ih =>
    rw [List.foldl_cons,ih (s.wake t),wake_same s t]

theorem wake_agenda (same : t.agenda = s.agenda) (a : Task) : (t.wake a).agenda = (s.wake a).agenda := by
  unfold wake
  rw [same]
  split
  · exact same
  · rfl

theorem wakeAll_agenda (same : t.agenda = s.agenda) (ts : List Task) : (t.wakeAll ts).agenda = (s.wakeAll ts).agenda := by
  unfold wakeAll
  induction ts generalizing s t with
  | nil => exact same
  | cons a ts ih => exact ih (wake_agenda same a)

theorem mem_wake (s : Station) (t a : Task) : a ∈ (s.wake t).agenda ↔ a = t ∨ a ∈ s.agenda := by
  unfold wake
  split
  · rename_i there
    have there : t ∈ s.agenda := by simpa using there
    constructor
    · exact .inr
    · rintro (rfl | old)
      · exact there
      · exact old
  · simp [or_comm]

theorem mem_wakeAll (s : Station) (ts : List Task) (a : Task) : a ∈ (s.wakeAll ts).agenda ↔ a ∈ ts ∨ a ∈ s.agenda := by
  unfold wakeAll
  induction ts generalizing s with
  | nil => simp
  | cons t ts ih =>
    rw [List.foldl_cons,ih,mem_wake,List.mem_cons]
    constructor
    · rintro (late | rfl | old)
      · exact .inl (.inr late)
      · exact .inl (.inl rfl)
      · exact .inr old
    · rintro ((rfl | late) | old)
      · exact .inr (.inl rfl)
      · exact .inl late
      · exact .inr (.inr old)

theorem publishAll_log (s : Station) (rs : List Report) :
    s.publishAll rs = {s with log:=s.log ++ rs.map fun r => ⟨s.now,.result r⟩} := by
  unfold publishAll
  induction rs generalizing s with
  | nil => simp
  | cons r rs ih => rw [List.foldl_cons,ih]; simp [publish,record]

theorem shown_results (now : Nat) (rs : List Report) :
    shown (rs.map fun r => ⟨now,.result r⟩) = rs.map Note.result := by
  induction rs with
  | nil => rfl
  | cons r rs ih => exact congrArg (Note.result r::·) ih

theorem deliver_queued {c : Completion} {q : BoundedQueue Completion} (room : s.reporter.queue.append? c = some q) :
    s.deliver c .points = {s with
      reporter:={s.reporter with queue:=(s.responders.grant q).2.1},responders:=(s.responders.grant q).1,
      agenda:=(s.wakeAll ((s.responders.grant q).2.2.toList.map .responder)).agenda} := by
  simp only [deliver,Reporter.accept,room]
  rw [wakeAll_same]
  congr 1
  refine wakeAll_agenda ?_ _
  rfl

theorem deliver_full {c : Completion} (full : s.reporter.queue.append? c = none) :
    s.deliver c .points = {s with
      reporter:=(s.reporter.process c).2,
      log:=s.log ++ (s.reporter.process c).1.toList.map fun r => ⟨s.now,.result r⟩} := by
  simp only [deliver,Reporter.accept,full]
  rw [publishAll_log]

theorem issue_cases {r : OpenRequest} {id : UInt16} {pending : OpenRequests} {device : DeviceAddress} {priority : Int}
    {op : Operation} {status : CallStatus} {m : Engine} (registered : s.reporter.pending.register? r = some (id,pending))
    (called : s.engine.call ⟨id,device,priority⟩ op (some .points) = (status,m)) :
    (status = .success ∧ (s.hold pending).issue r id device priority op =
        (.success,{s.hold pending with engine:=m,agenda:=(s.wake (.session device.session)).agenda})) ∨
      (status ≠ .success ∧ ∃ back, pending.take? id = some (r,back) ∧ (s.hold pending).issue r id device priority op =
        (status,publish {s.hold back with engine:=m} (Report.rejected r status s.instant))) := by
  have called : (s.hold pending).engine.call ⟨id,device,priority⟩ op (some .points) = (status,m) := called
  unfold issue call
  rw [called]
  by_cases accepted : status = .success
  · refine .inl ⟨accepted,?_⟩
    dsimp only
    rw [if_pos accepted,if_pos accepted,accepted,wake_same]
    congr 2
    refine wake_agenda ?_ _
    rfl
  · refine .inr ⟨accepted,?_⟩
    obtain ⟨back,taken,_⟩ := OpenRequests.register?_take? registered
    refine ⟨back,taken,?_⟩
    dsimp only
    rw [if_neg accepted,if_neg accepted]
    simp only [hold,taken]
    rfl

-- What comes of an intent or of a point to be polled: nothing, a cycle left out, or a
-- request that is on its way or refused.
inductive Attempts (s : Station) : Station → List Happening → Prop where
  | nothing : Attempts s s []
  | skipped (p : Point) : Attempts s (s.publish (Report.noResponse p s.instant)) [.skipped p s.instant]
  | issued {r id pending m e agenda} (registered : s.reporter.pending.register? r = some (id,pending))
      (accepts : s.engine.Accepts e m) (app : e.app = id) (handler : e.handler = .points)
      (ready : agenda = (s.wake (.session e.device.session)).agenda) :
      Attempts s {s.hold pending with engine:=m,agenda:=agenda} [.issued r e.ticket]
  | refused {r id pending back m status} (registered : s.reporter.pending.register? r = some (id,pending))
      (taken : pending.take? id = some (r,back)) (unmoved : s.engine.Unmoved m) (other : status ≠ .success) :
      Attempts s (publish {s.hold back with engine:=m} (Report.rejected r status s.instant)) [.refused r status s.instant]

theorem issue_attempts {r : OpenRequest} {id : UInt16} {pending : OpenRequests} (sound : s.engine.Sound)
    (registered : s.reporter.pending.register? r = some (id,pending)) (device : DeviceAddress) (priority : Int)
    (op : Operation) :
    Attempts s ((s.hold pending).issue r id device priority op).2 (s.issues r ⟨id,device,priority⟩ op) := by
  cases called : s.engine.call ⟨id,device,priority⟩ op (some .points) with
  | mk status m =>
    have cases' := Engine.call_cases sound ⟨id,device,priority⟩ op (some .points)
    rw [called] at cases'
    unfold issues
    rw [called]
    rcases issue_cases registered called with ⟨accepted,issued⟩ | ⟨other,back,taken,refused⟩
    · obtain ⟨e,entered,accepts⟩ := (cases'.resolve_right fun refused => refused.1 accepted).2
      obtain ⟨app,route,handler,_⟩ := Engine.framed?_target entered
      rw [issued]
      dsimp only
      rw [if_pos accepted,entered]
      exact .issued registered accepts app (Option.some.inj handler) (by rw [route])
    · have unmoved := (cases'.resolve_left fun accepted => other accepted.1).2
      rw [refused]
      dsimp only
      rw [if_neg other]
      exact .refused registered taken unmoved other

theorem handle_attempts (sound : s.engine.Sound) (raw : String) : Attempts s (s.handle raw).2 (s.handles raw) := by
  unfold handle handles
  cases s.resolve raw with
  | error f => exact .nothing
  | ok found =>
    obtain ⟨intent,point,device,op⟩ := found
    dsimp only
    cases registered : s.reporter.pending.register? (requestOf intent point op) with
    | none => exact .nothing
    | some found => exact issue_attempts sound registered device onDemandPriority (operationOf point op)

theorem pollPoint_attempts (sound : s.engine.Sound) (p : Point) : Attempts s (s.pollPoint p).2 (s.polls p) := by
  unfold pollPoint polls
  cases p.deviceAddress s.engine.format with
  | error d => exact .nothing
  | ok device =>
    dsimp only
    cases registered : s.reporter.pending.register? (OpenRequest.periodic p) with
    | none => exact .skipped p
    | some found => exact issue_attempts sound registered device p.priority (Operation.ofPoint p)

-- Which way an event takes: into the log, to its caller, to the responses that wait, or
-- through them at once.
inductive Observes (s : Station) : SessionEvent → Station → List Happening → Prop where
  | line {e key} (quiet : e.ending? = none) : Observes s e (s.record (.line key e)) []
  | caller (c : Completion) :
      Observes s (.done c .caller) (s.record (.done c)) [.told c .caller (s.engine.table.contains c.id)]
  | queued {c q agenda} (room : s.reporter.queue.append? c = some q) (ready : agenda =
        (s.wakeAll ((s.responders.grant q).2.2.toList.map .responder)).agenda) :
      Observes s (.done c .points) {s with
        reporter:={s.reporter with queue:=(s.responders.grant q).2.1},responders:=(s.responders.grant q).1,agenda:=agenda}
        [.told c .points (s.engine.table.contains c.id)]
  | full {c} (full : s.reporter.queue.append? c = none) :
      Observes s (.done c .points) {s with
        reporter:=(s.reporter.process c).2,log:=s.log ++ (s.reporter.process c).1.toList.map fun r => ⟨s.now,.result r⟩}
        (.told c .points (s.engine.table.contains c.id)::s.reporter.answers c)

theorem observe_observes (key : Peer) (s : Station) (e : SessionEvent) :
    Observes s e (observe key s e) (s.observes e) := by
  cases e with
  | done c h =>
    cases h with
    | caller => exact .caller c
    | points =>
      change Observes s _ (s.deliver c .points)
        (.told c .points _::if (s.reporter.queue.append? c).isSome then [] else s.reporter.answers c)
      cases room : s.reporter.queue.append? c with
      | some q =>
        rw [deliver_queued room]
        exact .queued room rfl
      | none =>
        rw [deliver_full room]
        exact .full room
  | _ => exact .line rfl

theorem drain_log (s : Station) : s.drain.2 = {s with
    reporter:=s.reporter.drain.2.2,
    log:=s.log ++ s.reporter.drain.2.1.map fun r => ⟨s.now,.result r⟩} := by
  unfold drain
  exact publishAll_log _ _

inductive Responds (s : Station) (w : Nat) : Station → List Happening → Prop where
  | left (finished : s.stopped = true) : Responds s w {s with
      responders:=(s.responders.resume s.reporter.queue w).1.leave w,
      reporter:={s.reporter with queue:=(s.responders.resume s.reporter.queue w).2}} []
  | waits (running : s.stopped = false) (parked : w ∈ s.responders.parked) : Responds s w s []
  | works {p : Reporter} (running : s.stopped = false) (standing : w ∉ s.responders.parked)
      (resumed : p = {s.reporter with queue:=(s.responders.resume s.reporter.queue w).2}) : Responds s w {s with
        responders:=(s.responders.resume s.reporter.queue w).1.park w,
        reporter:=p.drain.2.2,
        log:=s.log ++ p.drain.2.1.map fun r => ⟨s.now,.result r⟩} p.drained

theorem runResponder_responds (s : Station) (w : Nat) : Responds s w (s.runResponder w) (s.responds w) := by
  unfold runResponder responds
  by_cases finished : s.stopped = true
  · rw [if_pos finished,if_pos (by simp [finished])]
    exact .left finished
  · rw [if_neg finished]
    by_cases parked : s.responders.isParked w
    · rw [if_pos parked,if_pos (by simp [parked])]
      exact .waits (Bool.eq_false_iff.mpr finished) (by simpa [Pool.isParked] using parked)
    · rw [if_neg parked,if_neg (by simp [finished,parked])]
      dsimp only
      rw [drain_log]
      exact .works (Bool.eq_false_iff.mpr finished) (by simpa [Pool.isParked] using parked) rfl

end Station
end ModbusMaster
