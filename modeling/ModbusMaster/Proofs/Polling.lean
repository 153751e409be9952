import ModbusMaster.Proofs.Gateway
import ModbusMaster.Proofs.Reporting.Awaiting
namespace ModbusMaster

-- The polling of points in a running gateway: one read of a point at a time, and a point
-- is awaited just as long as its read is somewhere.

open OpenRequests (Kept Flagged)

namespace Reporter
variable {p : Reporter} {holds : OpenRequests → Prop}

theorem process_pending (kept : Kept holds) (before : holds p.pending) (c : Completion) : holds (p.process c).2.pending := by
  unfold process
  cases taken : p.pending.take? c.app with
  | none => exact before
  | some found => exact kept.take before taken

theorem drainUpTo_pending (kept : Kept holds) (before : holds p.pending) (n : Nat) :
    holds (drainUpTo n p).2.2.pending := by
  induction n generalizing p with
  | zero => exact before
  | succ n ih =>
    unfold drainUpTo
    cases p.queue.takeNow with
    | mk first q =>
      cases first with
      | none => exact before
      | some c => exact ih (process_pending (p:={p with queue:=q}) kept before c)

end Reporter

def Happening.turns (key : String) : Happening → Bool
  | issued r _ => r.polls key
  | answered r _ => r.polls key
  | _ => false

namespace Station
variable {s t : Station} {h seen : List Happening} {e : SessionEvent} {holds : OpenRequests → Prop} {key : String}

theorem Attempts.pending (attempts : Attempts s t seen) (kept : Kept holds) (before : holds s.reporter.pending) :
    holds t.reporter.pending := by
  cases attempts with
  | nothing => exact before
  | skipped => exact before
  | issued registered => exact kept.register before registered
  | refused registered taken => exact kept.take (kept.register before registered) taken

theorem Observes.pending (observes : Observes s e t seen) (kept : Kept holds) (before : holds s.reporter.pending) :
    holds t.reporter.pending := by
  cases observes with
  | full => exact Reporter.process_pending kept before _
  | _ => exact before

theorem observeAll_pending (peer : Peer) (kept : Kept holds) (before : holds s.reporter.pending) (out : List SessionEvent) :
    holds (out.foldl (observe peer) s).reporter.pending := by
  induction out generalizing s with
  | nil => exact before
  | cons e out ih => exact ih ((observe_observes peer s e).pending kept before)

theorem Responds.pending {w : Nat} (responds : Responds s w t seen) (kept : Kept holds) (before : holds s.reporter.pending) :
    holds t.reporter.pending := by
  cases responds with
  | @works p _ _ same =>
    refine Reporter.drainUpTo_pending (p:=p) kept ?_ _
    rw [same]
    exact before
  | _ => exact before

theorem move_pending (sound : s.engine.Sound) (kept : Kept holds) (before : holds s.reporter.pending) (m : Move) :
    holds (s.move m).reporter.pending := by
  cases m with
  | start => simp only [move]; split <;> exact before
  | call t op listening =>
    simp only [move]
    rw [(s.call_rest t op (listener listening)).1]
    exact before
  | handle raw => exact (handle_attempts sound raw).pending kept before
  | poll p => exact (pollPoint_attempts sound p).pending kept before
  | serve peer =>
    exact observeAll_pending peer (s:={s with engine:=(s.engine.runSession (s.devices peer) s.now peer).1}) kept before _
  | respond w =>
    simp only [move]
    split
    · exact (s.runResponder_responds w).pending kept before
    · exact before
  | hire count =>
    simp only [move,spawnResponders]
    rw [wakeAll_same]
    exact before
  | clear => simp only [move]; split <;> exact before
  | drain =>
    simp only [move]
    rw [drain_log]
    exact Reporter.drainUpTo_pending kept before _
  | _ => exact before

theorem moves_pending (sound : Sound s) (kept : Kept holds) (before : holds s.reporter.pending) (ms : List Move) :
    holds (s.moves ms).reporter.pending := by
  induction ms generalizing s with
  | nil => exact before
  | cons m ms ih => exact ih (move_sound sound m) (move_pending sound.engine kept before m)

end Station

theorem Attributed.polled {inside : List Ticket} {p : Reporter} {h : List Happening} (attributed : Attributed inside p h)
    (key : String) (app : UInt16) : ((issuedAs app h).map (·.1)).filter (·.polls key) =
      ((answeredAs app h).map (·.1)).filter (·.polls key) ++ (p.pending.requests[app]?).toList.filter (·.polls key) := by
  rw [attributed.unanswered,List.filter_append]

theorem quiet_polls {seen : List Happening} {key : String} (quiet : ∀ x ∈ seen, x.turns key = false) (app : UInt16) :
    ((issuedAs app seen).map (·.1)).filter (·.polls key) = [] ∧
      ((answeredAs app seen).map (·.1)).filter (·.polls key) = [] := by
  refine ⟨List.filter_eq_nil_iff.mpr ?_,List.filter_eq_nil_iff.mpr ?_⟩
  · intro r member
    obtain ⟨⟨r,t⟩,among,rfl⟩ := List.mem_map.mp member
    obtain ⟨x,here,same⟩ := List.mem_filterMap.mp (List.mem_of_mem_filter among)
    cases x with
    | issued r' t' =>
      cases same
      exact Bool.eq_false_iff.mp (quiet _ here)
    | _ => cases same
  · intro r member
    obtain ⟨⟨r,c⟩,among,rfl⟩ := List.mem_map.mp member
    obtain ⟨x,here,same⟩ := List.mem_filterMap.mp (List.mem_of_mem_filter among)
    cases x with
    | answered r' c' =>
      cases same
      exact Bool.eq_false_iff.mp (quiet _ here)
    | _ => cases same

theorem OpenRequests.Flagged.flag_filter {t : OpenRequests} (flagged : Flagged t) (key : String) :
    t.isAwaiting key = true ↔ ∃ id : UInt16, (t.requests[id]?).toList.filter (·.polls key) ≠ [] := by
  rw [flagged.flag]
  refine exists_congr fun id => ?_
  cases t.requests[id]? <;> simp

-- A flag moves with the reads of its point and with nothing else.
theorem Attributed.steady {inside rest : List Ticket} {p q : Reporter} {h seen : List Happening} {key : String}
    (before : Attributed inside p h) (after : Attributed rest q (h ++ seen)) (flagged : Flagged p.pending)
    (flagged' : Flagged q.pending) (quiet : ∀ x ∈ seen, x.turns key = false) :
    q.pending.isAwaiting key = p.pending.isAwaiting key := by
  have same : ∀ app : UInt16, (q.pending.requests[app]?).toList.filter (·.polls key) =
      (p.pending.requests[app]?).toList.filter (·.polls key) := by
    intro app
    obtain ⟨issued,answered⟩ := quiet_polls quiet app
    have later := after.polled key app
    rw [issuedAs_append,answeredAs_append,List.map_append,List.map_append,List.filter_append,List.filter_append,issued,
      answered,List.append_nil,List.append_nil,before.polled] at later
    exact (List.append_cancel_left later).symm
  rw [Bool.eq_iff_iff,flagged.flag_filter,flagged'.flag_filter]
  exact exists_congr fun app => by rw [same]

namespace Station
variable {s : Station} {p : Point} {device : DeviceAddress}

theorem issues_turns {r : OpenRequest} {t : Target} {op : Operation} {key : String} (other : r.polls key = false) :
    ∀ x ∈ s.issues r t op, x.turns key = false := by
  intro x member
  unfold issues at member
  dsimp only at member
  split at member
  · obtain ⟨e,_,rfl⟩ := List.mem_map.mp member
    exact other
  · rw [List.mem_singleton.mp member]
    rfl

theorem handles_turns (s : Station) (raw key : String) : ∀ x ∈ s.handles raw, x.turns key = false := by
  intro x member
  unfold handles at member
  cases resolved : s.resolve raw with
  | error f => simp [resolved] at member
  | ok found =>
    obtain ⟨intent,point,device,op⟩ := found
    simp only [resolved] at member
    split at member
    · cases member
    · refine issues_turns ?_ x member
      cases op <;> rfl

theorem pollPoint_awaited (resolved : p.deviceAddress s.engine.format = .ok device)
    (awaited : s.reporter.pending.isAwaiting p.key = true) :
    s.pollPoint p = (false,s.publish (Report.noResponse p s.instant)) ∧ s.polls p = [.skipped p s.instant] := by
  simp [pollPoint,polls,resolved,OpenRequests.register?_awaited awaited]

theorem pollPoint_idle (resolved : p.deviceAddress s.engine.format = .ok device)
    (room : s.reporter.pending.len < OpenRequests.maxId.toNat) (idle : s.reporter.pending.isAwaiting p.key = false) :
    ∃ id status m, s.engine.call ⟨id,device,p.priority⟩ (Operation.ofPoint p) (some .points) = (status,m) ∧
      s.reporter.pending.requests[id]? = none ∧ (s.pollPoint p).1 = (status == .success) ∧
      (s.pollPoint p).2.engine = m ∧ (s.pollPoint p).2.reporter.pending.isAwaiting p.key = (status == .success) ∧
      shown (s.pollPoint p).2.log = shown s.log ++
        if status = .success then [] else [.result (Report.rejected (OpenRequest.periodic p) status s.instant)] := by
  obtain ⟨id,pending,registered⟩ := OpenRequests.register?_room (r:=OpenRequest.periodic p) room idle
  have polls : (OpenRequest.periodic p).polls p.key = true := by simp [OpenRequest.polls,OpenRequest.periodic]
  have flag := (OpenRequests.register?_isAwaiting registered p.key).1
  rw [polls,Bool.or_true] at flag
  cases called : s.engine.call ⟨id,device,p.priority⟩ (Operation.ofPoint p) (some .points) with
  | mk status m =>
    refine ⟨id,status,m,called,OpenRequests.register?_fresh registered,?_⟩
    unfold pollPoint
    rw [resolved]
    dsimp only
    rw [registered]
    dsimp only
    rcases issue_cases registered called with ⟨accepted,issued⟩ | ⟨other,back,taken,refused⟩
    · rw [issued]
      subst accepted
      exact ⟨rfl,rfl,flag,(List.append_nil _).symm⟩
    · rw [refused]
      have cleared := OpenRequests.take?_isAwaiting taken p.key
      rw [polls,Bool.not_true,Bool.and_false] at cleared
      refine ⟨rfl,rfl,cleared.trans (beq_eq_false_iff_ne.mpr other).symm,?_⟩
      rw [if_neg other]
      exact shown_append _ _

structure Watches (s : Station) (h : List Happening) : Prop where
  traced : ∀ t ∈ underway s.engine.tickets s.reporter, ∃ r, (issuedAs t.app h).getLast? = some (r,t)
  single : ∀ key, (outstanding s.engine.tickets s.reporter h key).length ≤ 1
  flag : ∀ key, s.reporter.pending.isAwaiting key = true ↔ (outstanding s.engine.tickets s.reporter h key).length = 1
  -- a cycle is left out, with a placeholder and nothing else, while a read of the point is under way
  skipped : ∀ p device, p.deviceAddress s.engine.format = .ok device →
    outstanding s.engine.tickets s.reporter h p.key ≠ [] → s.pollPoint p = (false,s.publish (Report.noResponse p s.instant))
  -- else one read goes to the stack under a new reference, and no placeholder is published
  submitted : ∀ p device, p.deviceAddress s.engine.format = .ok device → s.reporter.pending.len < 65534 →
    outstanding s.engine.tickets s.reporter h p.key = [] → ∃ id status m,
      s.engine.call ⟨id,device,p.priority⟩ (Operation.ofPoint p) (some .points) = (status,m) ∧
      s.reporter.pending.requests[id]? = none ∧ (s.pollPoint p).1 = (status == .success) ∧
      (s.pollPoint p).2.engine = m ∧ (s.pollPoint p).2.reporter.pending.isAwaiting p.key = (status == .success) ∧
      shown (s.pollPoint p).2.log = shown s.log ++
        if status = .success then [] else [.result (Report.rejected (OpenRequest.periodic p) status s.instant)]
  -- the flag of a point moves only as a periodic read of it is issued or answered, which no
  -- request on demand is; an intent never moves one
  demanded : ∀ (r : OpenRequest) key, r.isOnDemand = true → r.polls key = false
  steady : ∀ m key, (∀ x ∈ s.happens m, x.turns key = false) →
    (s.move m).reporter.pending.isAwaiting key = s.reporter.pending.isAwaiting key
  handled : ∀ raw key, (s.handle raw).2.reporter.pending.isAwaiting key = s.reporter.pending.isAwaiting key
  -- what the clock does when it ticks is a run in which the points that are due are polled in turn
  ticked : ∃ poller, s.moves (.arrange s.agenda s.intents s.writers poller::s.duePoints.map .poll) = s.poll

theorem watches (sound : Sound s) {h : List Happening} (attributed : Attributed s.engine.tickets s.reporter h)
    (flagged : Flagged s.reporter.pending) : Watches s h := by
  have flag := attributed.awaiting_iff flagged
  have single := attributed.outstanding_single flagged
  have steady : ∀ m key, (∀ x ∈ s.happens m, x.turns key = false) →
      (s.move m).reporter.pending.isAwaiting key = s.reporter.pending.isAwaiting key := fun m key quiet =>
    attributed.steady (move_attributed sound attributed m) flagged
      (move_pending sound.engine OpenRequests.flagged_kept flagged m) quiet
  refine ⟨?_,single,?_,?_,?_,?_,steady,?_,poll_duePoints sound⟩
  · intro t member
    obtain ⟨r,_,last⟩ := attributed.traced member
    exact ⟨r,last⟩
  · intro key
    have most := single key
    rw [flag,← List.length_pos_iff]
    omega
  · intro p device resolved out
    exact (pollPoint_awaited resolved ((flag p.key).mpr out)).1
  · intro p device resolved room none
    refine pollPoint_idle resolved room (Bool.eq_false_iff.mpr ?_)
    rw [Ne,flag]
    exact fun out => out none
  · intro r key demanded
    have kind : (r.kind == .periodic) = false := by simpa [OpenRequest.isOnDemand] using demanded
    rw [OpenRequest.polls,kind,Bool.false_and]
  · intro raw key
    exact steady (.handle raw) key (s.handles_turns raw key)

end Station

namespace Gateway
variable {first : Station} {settings : Settings} {catalog : Catalog} {speaks : Format} {devices : Peer → Device}

theorem started_flagged (started : start settings catalog speaks devices = .ok first) : Flagged first.reporter.pending := by
  rw [← start_moves started]
  exact Station.moves_pending (Station.sound_create _ _ _ _ _ _) OpenRequests.flagged_kept OpenRequests.flagged_empty _

theorem points_polled_singly (started : start settings catalog speaks devices = .ok first) (ms : List Move) :
    (first.moves ms).Watches (first.history ms) := by
  obtain ⟨accounted,attributed⟩ := started_known started ms
  have sound : first.Sound := (started_known started []).1.sound
  have flagged := Station.moves_pending sound OpenRequests.flagged_kept (started_flagged started) ms
  exact Station.watches accounted.sound attributed flagged

-- Two cycles of a point whose device never answers, and a third long after.
theorem points_polled_singly_serial : ∃ first, start serialSettings onePoint .rtu silentLine = .ok first ∧
    (first.moves [.poll pressure,.serve .serial,.poll pressure,.clock 90000000,.serve .serial,.respond 0,.poll pressure]).Watches
      (first.history [.poll pressure,.serve .serial,.poll pressure,.clock 90000000,.serve .serial,.respond 0,.poll pressure]) :=
  ⟨_,rfl,points_polled_singly (show start serialSettings onePoint .rtu silentLine = _ from rfl) _⟩

end Gateway
end ModbusMaster
