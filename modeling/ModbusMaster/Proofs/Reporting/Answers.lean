import ModbusMaster.Proofs.Reporting.Attribution
import ModbusMaster.Proofs.Stack.Rounds
namespace ModbusMaster.Station
variable {s t : Station} {h seen : List Happening} {e : SessionEvent} {rest : List Ticket}

-- Through every move of a station each request for a point keeps its reference.

theorem Attempts.attributed (attempts : Attempts s t seen) (attributed : Attributed s.engine.tickets s.reporter h) :
    Attributed t.engine.tickets t.reporter (h ++ seen) := by
  cases attempts with
  | nothing => simpa using attributed
  | skipped => exact attributed.aside ⟨rfl,rfl,rfl,rfl⟩
  | @issued r id pending m e agenda registered accepts app handler =>
    subst app
    exact attributed.issue accepts.tickets handler (OpenRequests.register?_fresh registered)
      (OpenRequests.register?_get? registered) rfl
  | refused registered taken unmoved =>
    obtain ⟨back,taken',same⟩ := OpenRequests.register?_take? registered
    cases taken.symm.trans taken'
    have tickets : s.engine.tickets.Perm _ := List.Perm.of_eq (congrArg SessionSet.tickets unmoved.sessions.symm)
    refine Attributed.aside ?_ ⟨rfl,rfl,rfl,rfl⟩
    exact attributed.congr tickets same rfl

theorem Observes.attributed (observes : Observes s e t seen) (attributed : Attributed (ended [e] ++ rest) s.reporter h) :
    Attributed rest t.reporter (h ++ seen) := by
  cases observes with
  | line quiet => simpa [ended,endings,quiet,record] using attributed
  | caller c => exact attributed.tellCaller (List.Perm.refl _)
  | @queued c q agenda room =>
    refine attributed.tellPoints (List.Perm.refl _) rfl ?_
    change (s.responders.grant q).2.1.items = s.reporter.queue.items ++ [c]
    rw [Pool.grant_items,BoundedQueue.append?_some room]
  | @full c full =>
    -- as if it had found room and were the first of its reference there
    let p : Reporter := {s.reporter with queue:={s.reporter.queue with items:=s.reporter.queue.items ++ [c]}}
    have told : Attributed rest p (h ++ [.told c .points (s.engine.table.contains c.id)]) :=
      attributed.tellPoints (List.Perm.refl _) rfl rfl
    have first (app : UInt16) : p.queue.items.filter (·.app == app) =
        [c].filter (·.app == app) ++ s.reporter.queue.items.filter (·.app == app) := by
      change (s.reporter.queue.items ++ [c]).filter _ = _
      rw [List.filter_append]
      by_cases here : c.app = app
      · subst here
        have count := told.count c.app
        have one : (p.pending.requests[c.app]?).toList.length ≤ 1 := by cases p.pending.requests[c.app]? <;> simp
        have more : p.queue.items.filter (·.app == c.app) = s.reporter.queue.items.filter (·.app == c.app) ++ [c] := by
          simp [p]
        rw [more,List.length_append,List.length_singleton] at count
        rw [List.eq_nil_of_length_eq_zero (l:=s.reporter.queue.items.filter (·.app == c.app)) (by omega),
          List.append_nil,List.nil_append]
      · simp [here]
    have answered := told.answer first (q:=s.reporter) rfl
    simpa [List.append_assoc] using answered

theorem observeAll_attributed (key : Peer) {out : List SessionEvent} (attributed : Attributed (ended out ++ rest) s.reporter h) :
    Attributed rest (out.foldl (observe key) s).reporter (h ++ observesAll key s out) := by
  induction out generalizing s h with
  | nil => simpa [observesAll] using attributed
  | cons e out ih =>
    rw [show ended (e::out) = ended [e] ++ ended out from ended_append [e] out,List.append_assoc] at attributed
    have first := (observe_observes key s e).attributed attributed
    simpa [observesAll,List.append_assoc] using ih first

theorem Responds.attributed {w : Nat} (responds : Responds s w t seen) (attributed : Attributed rest s.reporter h) :
    Attributed rest t.reporter (h ++ seen) := by
  have items := (s.responders.resume_staff s.reporter.queue w).2.2.2
  have resumed : Attributed rest {s.reporter with queue:=(s.responders.resume s.reporter.queue w).2} h :=
    attributed.congr (List.Perm.refl _) (fun _ => rfl) items
  cases responds with
  | left => simpa using resumed
  | waits => simpa using attributed
  | works _ _ same =>
    subst same
    exact resumed.drain _

theorem call_attributed (sound : s.engine.Sound) (t : Target) (op : Operation) (listening : Bool)
    (attributed : Attributed s.engine.tickets s.reporter h) :
    Attributed (s.call t op (listener listening)).2.engine.tickets (s.call t op (listener listening)).2.reporter
      (h ++ s.calls t op (listener listening)) := by
  rw [(s.call_rest t op (listener listening)).1]
  unfold calls
  rcases Engine.call_cases sound t op (listener listening) with ⟨success,e,entered,accepts⟩ | ⟨other,unmoved⟩
  · rw [if_pos success,entered]
    refine attributed.accept accepts.tickets ?_
    have handler := (Engine.framed?_target entered).2.2.1
    unfold listener at handler
    split at handler
    · simp [Entry.ticket,Option.some.inj handler]
    · cases handler
  · rw [if_neg other,List.append_nil]
    exact attributed.congr (List.Perm.of_eq (congrArg SessionSet.tickets unmoved.sessions.symm)) (fun _ => rfl) rfl

theorem serve_attributed (sound : s.engine.Sound) (key : Peer) (attributed : Attributed s.engine.tickets s.reporter h) :
    Attributed (s.runSession key).engine.tickets (s.runSession key).reporter (h ++ s.serves key) := by
  obtain ⟨run,heard⟩ := s.runSession_split key
  have exchanges := Engine.runSession_exchanges sound (s.devices key) s.now key
  rw [run,heard,observeAll_engine]
  refine observeAll_attributed key (attributed.congr exchanges.tickets (fun _ => rfl) rfl)

theorem move_attributed (sound : Sound s) (attributed : Attributed s.engine.tickets s.reporter h) (m : Move) :
    Attributed (s.move m).engine.tickets (s.move m).reporter (h ++ s.happens m) := by
  have exchanges := move_exchanges sound.engine m
  -- a move that tells nothing and changes neither reporter nor what the stack holds
  have quiet (nothing : s.happens m = []) (pending : (s.move m).reporter.pending = s.reporter.pending)
      (items : (s.move m).reporter.queue.items = s.reporter.queue.items) :
      Attributed (s.move m).engine.tickets (s.move m).reporter (h ++ s.happens m) := by
    rw [nothing,List.append_nil]
    have perm := exchanges.tickets
    rw [nothing] at perm
    exact attributed.congr perm (fun _ => by rw [pending]) items
  cases m with
  | start => refine quiet rfl ?_ ?_ <;> (simp only [move]; split <;> rfl)
  | call t op listening => exact call_attributed sound.engine t op listening attributed
  | handle raw => exact (handle_attempts sound.engine raw).attributed attributed
  | poll p => exact (pollPoint_attempts sound.engine p).attributed attributed
  | serve key => exact serve_attributed sound.engine key attributed
  | respond w =>
    simp only [move,happens]
    split
    · have responds := s.runResponder_responds w
      rw [responds.engine]
      exact responds.attributed attributed
    · simpa using attributed
  | hire count =>
    refine quiet rfl ?_ ?_ <;> (simp only [move,spawnResponders]; rw [wakeAll_same])
  | clear => refine quiet rfl ?_ ?_ <;> (simp only [move]; split <;> rfl)
  | drain =>
    simp only [move,happens]
    rw [drain_log]
    exact attributed.drain _
  | _ => exact quiet rfl rfl rfl

theorem moves_attributed (sound : Sound s) (attributed : Attributed s.engine.tickets s.reporter h) (ms : List Move) :
    Attributed (s.moves ms).engine.tickets (s.moves ms).reporter (h ++ s.history ms) := by
  have both := moves_invariant (fun s h => Sound s ∧ Attributed s.engine.tickets s.reporter h)
    (fun _ _ m ⟨sound,attributed⟩ => ⟨move_sound sound m,move_attributed sound attributed m⟩) ⟨sound,attributed⟩ ms
  exact both.2

theorem issues_success (sound : s.engine.Sound) {r : OpenRequest} {t : Target} {op : Operation}
    (success : (s.engine.call t op (some .points)).1 = .success) :
    ∃ ticket : Ticket, s.issues r t op = [.issued r ticket] ∧ ticket.app = t.app ∧ ticket.device = t.device := by
  obtain ⟨_,e,entered,_⟩ := (Engine.call_cases sound t op (some .points)).resolve_right fun refused => refused.1 success
  obtain ⟨app,device,_⟩ := Engine.framed?_target entered
  exact ⟨e.ticket,by simp [issues,success,entered],app,device⟩

theorem issues_refused {r : OpenRequest} {t : Target} {op : Operation} {status : CallStatus}
    (called : (s.engine.call t op (some .points)).1 = status) (other : status ≠ .success) :
    s.issues r t op = [.refused r status s.instant] := by
  subst called
  exact if_neg other

theorem issue_status {r : OpenRequest} {id : UInt16} {pending : OpenRequests}
    (registered : s.reporter.pending.register? r = some (id,pending)) (device : DeviceAddress) (priority : Int)
    (op : Operation) : ((s.hold pending).issue r id device priority op).1 =
      (s.engine.call ⟨id,device,priority⟩ op (some .points)).1 := by
  cases called : s.engine.call ⟨id,device,priority⟩ op (some .points) with
  | mk status m =>
    rcases issue_cases registered called with ⟨accepted,issued⟩ | ⟨_,_,_,refused⟩
    · rw [issued]
      exact accepted.symm
    · rw [refused]

theorem handle_error {raw : String} {f : Fault} (failed : (s.handle raw).1 = .error f) :
    (s.handle raw).2 = s ∧ s.handles raw = [] := by
  unfold handle handles at *
  cases resolved : s.resolve raw with
  | error g => exact ⟨rfl,rfl⟩
  | ok found =>
    obtain ⟨intent,point,device,op⟩ := found
    simp only [resolved] at failed
    cases registered : s.reporter.pending.register? (requestOf intent point op) with
    | none => simp [registered]
    | some found => simp [registered] at failed

theorem handle_ok {raw : String} {status : CallStatus} (done : (s.handle raw).1 = .ok status) :
    ∃ intent point device op id, s.resolve raw = .ok (intent,point,device,op) ∧
      (s.engine.call ⟨id,device,onDemandPriority⟩ (operationOf point op) (some .points)).1 = status ∧
      s.handles raw = s.issues (requestOf intent point op) ⟨id,device,onDemandPriority⟩ (operationOf point op) := by
  unfold handle handles at *
  cases resolved : s.resolve raw with
  | error g =>
    rw [resolved] at done
    cases done
  | ok found =>
    obtain ⟨intent,point,device,op⟩ := found
    simp only [resolved] at done
    cases registered : s.reporter.pending.register? (requestOf intent point op) with
    | none => simp [registered] at done
    | some found =>
      have issued := issue_status registered device onDemandPriority (operationOf point op)
      refine ⟨intent,point,device,op,found.1,rfl,?_,by simp [registered]⟩
      rw [← issued]
      simpa [registered] using done

theorem pollPoint_status {p : Point} {device : DeviceAddress} {id : UInt16} {pending : OpenRequests}
    (resolved : p.deviceAddress s.engine.format = .ok device)
    (registered : s.reporter.pending.register? (OpenRequest.periodic p) = some (id,pending)) :
    (s.pollPoint p).1 = ((s.engine.call ⟨id,device,p.priority⟩ (Operation.ofPoint p) (some .points)).1 == .success) ∧
      s.polls p = s.issues (OpenRequest.periodic p) ⟨id,device,p.priority⟩ (Operation.ofPoint p) := by
  unfold pollPoint polls
  rw [resolved]
  dsimp only
  rw [registered]
  dsimp only
  rw [issue_status registered]
  exact ⟨rfl,rfl⟩

theorem pollPoint_issued (sound : s.engine.Sound) {p : Point} (done : (s.pollPoint p).1 = true) :
    ∃ ticket, s.polls p = [.issued (OpenRequest.periodic p) ticket] := by
  cases resolved : p.deviceAddress s.engine.format with
  | error d => simp [pollPoint,resolved] at done
  | ok device =>
    cases registered : s.reporter.pending.register? (OpenRequest.periodic p) with
    | none => simp [pollPoint,resolved,registered] at done
    | some found =>
      obtain ⟨status,polled⟩ := pollPoint_status resolved registered
      rw [status,beq_iff_eq] at done
      obtain ⟨ticket,issued,_⟩ := issues_success sound done (r:=OpenRequest.periodic p)
      exact ⟨ticket,polled.trans issued⟩

end ModbusMaster.Station
