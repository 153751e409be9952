import ModbusMaster.Proofs.Reporting.Answers
import ModbusMaster.Proofs.Stack.Completion
import ModbusMaster.Proofs.Stack.Sessions
namespace ModbusMaster

-- Every request that a gateway issues for a point is answered by one report of its own by
-- the time it has shut down, and what it does not issue is reported at once or not at all.

structure Report.Carries (x : Report) (r : OpenRequest) : Prop where
  point : x.point = r.point
  appSeq : x.appSeq = r.appSeq
  version : x.version = r.version
  topic : x.topic = r.topic
  isOnDemand : x.isOnDemand = r.isOnDemand

structure OpenRequest.Asks (r : OpenRequest) (i : Intent) (p : Point) : Prop where
  point : r.point = p
  appSeq : r.appSeq = some i.appSeq
  version : r.version = some i.version
  topic : r.topic = some i.topic
  isOnDemand : r.isOnDemand = true

theorem Station.requestOf_asks (i : Intent) (p : Point) (op : Option WriteValue) : (requestOf i p op).Asks i p := by
  refine ⟨rfl,rfl,rfl,rfl,?_⟩
  cases op <;> rfl

def Outcome.reported : Outcome → ReportStatus
  | .success => .good
  | .exception _ => .exception
  | .timeout => .timeout
  | .shutdown => .failed
  | .transport _ => .failed

theorem Report.ofCompletion_carries (r : OpenRequest) (c : Completion) :
    (Report.ofCompletion r c).Carries r ∧ (Report.ofCompletion r c).status = c.outcome.reported := by
  unfold Report.ofCompletion
  cases c.outcome with
  | success =>
    dsimp only
    cases c.function.isWrite <;> exact ⟨⟨rfl,rfl,rfl,rfl,rfl⟩,rfl⟩
  | _ => exact ⟨⟨rfl,rfl,rfl,rfl,rfl⟩,rfl⟩

theorem Report.rejected_carries (r : OpenRequest) (status : CallStatus) (now : Time.Instant) :
    (Report.rejected r status now).Carries r ∧ (Report.rejected r status now).status = .failed :=
  ⟨⟨rfl,rfl,rfl,rfl,rfl⟩,rfl⟩

namespace Gateway
variable {s first : Station} {settings : Settings} {catalog : Catalog} {speaks : Format} {devices : Peer → Device}

def ending (s : Station) : List Move := s.dismissing ++ s.stopWorkers.2.ending ++ [.drain]

theorem stopWorkers_sound (sound : s.Sound) : s.stopWorkers.2.Sound :=
  Station.dismissing_moves sound ▸ Station.moves_sound sound _

theorem shutdown_sound (sound : s.Sound) : s.shutdown.Sound :=
  Station.ending_moves sound ▸ Station.moves_sound sound _

theorem ending_moves (sound : s.Sound) : s.moves (ending s) = shutdown s := by
  unfold ending shutdown
  rw [Station.moves_append,Station.moves_append,Station.dismissing_moves sound,
    Station.ending_moves (stopWorkers_sound sound)]
  rfl

-- Where nobody is left to be woken for what waits, a drain takes all of it.
theorem drain_empty (sound : s.Sound) (granted : s.responders.granted = []) : s.drain.2.reporter.queue.items = [] := by
  rw [Station.drain_log]
  have staffs : s.responders.Staffs s.reporter.drain.2.2.queue := Reporter.drainUpTo_staffs sound.staffs
  have used : s.reporter.drain.2.2.queue.permits = 0 := Reporter.drainUpTo_permits sound.staffs.enough (Nat.le_refl _)
  have counted := staffs.counted
  rw [used,granted] at counted
  exact List.eq_nil_of_length_eq_zero counted.symm

theorem shutdown_empty (sound : s.Sound) :
    (shutdown s).engine.tickets = [] ∧ (shutdown s).reporter.queue.items = [] := by
  obtain ⟨nobody,stopped⟩ := Station.stopWorkers_staff sound
  have sound := stopWorkers_sound sound
  have staff : s.stopWorkers.2.shutdown.responders.staff = [] := by
    have gone := (Station.moves_dismissed sound stopped s.stopWorkers.2.ending).2
    rw [Station.ending_moves sound,nobody] at gone
    exact List.eq_nil_iff_forall_not_mem.mpr fun v member => by simpa using (gone v member).1
  unfold shutdown
  refine ⟨?_,drain_empty (shutdown_sound sound) (List.append_eq_nil_iff.mp staff).1⟩
  rw [Station.drain_log]
  dsimp only
  exact Station.shutdown_tickets s.stopWorkers.2

def beginning (settings : Settings) (first : Station) : List Move :=
  [.configure settings.timing,.start,.hire settings.responseWorkers,
    .arrange first.agenda first.intents first.writers first.poller]

def bare (settings : Settings) (catalog : Catalog) (devices : Peer → Device) : Station :=
  Station.create settings.format settings.slots (settings.slots*2) settings.writeCapacity catalog devices

theorem spawnWriters_move (sound : s.Sound) (count : Nat) (poller : Option Poller) :
    s.move (.arrange (s.spawnWriters count).agenda (s.spawnWriters count).intents (s.spawnWriters count).writers poller) =
      {s.spawnWriters count with poller:=poller} := by
  have known : ∀ w, .responder w ∈ (s.spawnWriters count).agenda → w < s.responders.spawned := by
    intro w member
    rcases (Station.mem_wakeAll _ _ _).mp member with woken | old
    · obtain ⟨v,_,wrong⟩ := List.mem_map.mp woken
      cases wrong
    · exact sound.ready w old
  have same : s.spawnWriters count =
      {s with writers:=(s.spawnWriters count).writers,agenda:=(s.spawnWriters count).agenda} := by
    simp only [Station.spawnWriters]
    rw [Station.wakeAll_same]
  rw [Station.move_arrange known,same]

theorem start_moves (started : start settings catalog speaks devices = .ok first) :
    (bare settings catalog devices).moves (beginning settings first) = first := by
  have sound : ((bare settings catalog devices).moves
      [.configure settings.timing,.start,.hire settings.responseWorkers]).Sound :=
    Station.moves_sound (Station.sound_create _ _ _ _ _ _) _
  have hired : (bare settings catalog devices).moves [.configure settings.timing,.start,.hire settings.responseWorkers] =
    ((bare settings catalog devices).configure settings.timing).2.start.2.spawnResponders settings.responseWorkers := rfl
  rw [show beginning settings first = [.configure settings.timing,.start,.hire settings.responseWorkers] ++
    [.arrange first.agenda first.intents first.writers first.poller] from rfl,Station.moves_append]
  rw [hired] at sound ⊢
  unfold start at started
  split at started
  · cases started
  · split at started
    · cases started
    · dsimp only at started
      rw [show Station.create settings.format settings.slots (settings.slots*2) settings.writeCapacity catalog devices =
        bare settings catalog devices from rfl] at started
      generalize ((bare settings catalog devices).configure settings.timing).2.start.2.spawnResponders
        settings.responseWorkers = u at started sound
      cases Except.ok.inj started
      exact spawnWriters_move sound settings.writeWorkers _

theorem started_known (started : start settings catalog speaks devices = .ok first) (ms : List Move) :
    Station.Accounted (first.moves ms) (first.history ms) ∧
      Attributed (first.moves ms).engine.tickets (first.moves ms).reporter (first.history ms) := by
  have begun := start_moves started
  have silent : (bare settings catalog devices).history (beginning settings first) = [] := rfl
  have accounted := Station.accounted_moves
    (Station.accounted_create settings.format settings.slots (settings.slots*2) settings.writeCapacity catalog devices)
    (beginning settings first)
  have attributed := Station.moves_attributed (h:=[]) (s:=bare settings catalog devices) (Station.sound_create _ _ _ _ _ _)
    (attributed_empty (settings.slots*2)) (beginning settings first)
  change Station.Accounted ((bare settings catalog devices).moves _)
    ([] ++ (bare settings catalog devices).history _) at accounted
  rw [begun,silent] at accounted attributed
  exact ⟨Station.accounted_moves accounted ms,Station.moves_attributed accounted.sound attributed ms⟩

theorem started_setting (started : start settings catalog speaks devices = .ok first) (ms : List Move) :
    (first.moves ms).setting = (settings.format,devices) := by
  have sound : first.Sound := (started_known started []).1.sound
  have begun := Station.moves_setting (s:=bare settings catalog devices) (Station.sound_create _ _ _ _ _ _)
    (beginning settings first)
  rw [start_moves started] at begun
  exact (Station.moves_setting sound ms).trans begun

-- What a gateway that has run from `first` on owes to its intents and points, and what it
-- has delivered when it has shut down.
structure Delivers (first : Station) (ms : List Move) : Prop where
  -- an intent that cannot be carried out changes nothing
  failed : ∀ raw f, ((first.moves ms).handle raw).1 = .error f →
    ((first.moves ms).handle raw).2 = first.moves ms ∧ (first.moves ms).handles raw = []
  -- one that can is on its way as it asks, or is refused
  issued : ∀ raw, ((first.moves ms).handle raw).1 = .ok .success → ∃ intent point device op r ticket,
    (first.moves ms).resolve raw = .ok (intent,point,device,op) ∧ r.Asks intent point ∧ ticket.device = device ∧
      (first.moves ms).handles raw = [.issued r ticket]
  refused : ∀ raw status, ((first.moves ms).handle raw).1 = .ok status → status ≠ .success → ∃ intent point device op r,
    (first.moves ms).resolve raw = .ok (intent,point,device,op) ∧ r.Asks intent point ∧
      (first.moves ms).handles raw = [.refused r status (first.moves ms).instant]
  -- so it is with the reads of points that are not still awaited
  polled : ∀ p, ((first.moves ms).pollPoint p).1 = true → ∃ ticket,
    (first.moves ms).polls p = [.issued (OpenRequest.periodic p) ticket]
  unpolled : ∀ p device, p.deviceAddress (first.moves ms).engine.format = .ok device →
    (first.moves ms).reporter.pending.register? (OpenRequest.periodic p) ≠ none → ((first.moves ms).pollPoint p).1 = false →
      ∃ status, status ≠ .success ∧
        (first.moves ms).polls p = [.refused (OpenRequest.periodic p) status (first.moves ms).instant]
  -- what happens is published as it happens, and nothing else
  atOnce : ∀ m, shown ((first.moves ms).move m).log = shown (first.moves ms).log ++ notes ((first.moves ms).happens m)
  ended : first.moves (ms ++ ending (first.moves ms)) = shutdown (first.moves ms)
  published : shown (shutdown (first.moves ms)).log = notes (first.history (ms ++ ending (first.moves ms)))
  -- the requests of a reference and their answers, one by one
  answered : ∀ app, issuedAs app (first.history (ms ++ ending (first.moves ms))) =
    (answeredAs app (first.history (ms ++ ending (first.moves ms)))).map fun x => (x.1,x.2.ticket .points)
  told : ∀ app, tidings app (first.history (ms ++ ending (first.moves ms))) =
    (answeredAs app (first.history (ms ++ ending (first.moves ms)))).map (·.2)
  carried : ∀ r c, (Report.ofCompletion r c).Carries r ∧ (Report.ofCompletion r c).status = c.outcome.reported
  carriedRefused : ∀ r status now, (Report.rejected r status now).Carries r ∧ (Report.rejected r status now).status = .failed
  empty : (shutdown (first.moves ms)).reporter.pending.len = 0

theorem requests_reported_once (started : start settings catalog speaks devices = .ok first) (ms : List Move) :
    Delivers first ms := by
  have sound := (started_known started ms).1.sound
  have ended : first.moves (ms ++ ending (first.moves ms)) = shutdown (first.moves ms) := by
    rw [Station.moves_append,ending_moves sound]
  obtain ⟨accounted,attributed⟩ := started_known started (ms ++ ending (first.moves ms))
  rw [ended] at accounted attributed
  obtain ⟨nothing,empty⟩ := shutdown_empty sound
  rw [nothing] at attributed
  have complete := attributed.complete empty
  refine ⟨fun raw f => Station.handle_error,?_,?_,fun p => Station.pollPoint_issued sound.engine,?_,
    Station.move_shown sound.engine,ended,accounted.seen,fun app => (complete app).1,fun app => (complete app).2.1,
    Report.ofCompletion_carries,Report.rejected_carries,?_⟩
  · intro raw done
    obtain ⟨intent,point,device,op,id,resolved,success,handles⟩ := Station.handle_ok done
    obtain ⟨ticket,issued,_,route⟩ := Station.issues_success sound.engine success (r:=Station.requestOf intent point op)
    exact ⟨intent,point,device,op,_,ticket,resolved,Station.requestOf_asks intent point op,route,handles.trans issued⟩
  · intro raw status done other
    obtain ⟨intent,point,device,op,id,resolved,called,handles⟩ := Station.handle_ok done
    exact ⟨intent,point,device,op,_,resolved,Station.requestOf_asks intent point op,
      handles.trans (Station.issues_refused called other)⟩
  · intro p device resolved free undone
    cases registered : (first.moves ms).reporter.pending.register? (OpenRequest.periodic p) with
    | none => exact absurd registered free
    | some found =>
      obtain ⟨status,polled⟩ := Station.pollPoint_status resolved registered
      rw [status,beq_eq_false_iff_ne] at undone
      exact ⟨_,undone,polled.trans (Station.issues_refused rfl undone)⟩
  · exact OpenRequests.len_eq_zero fun app => (complete app).2.2

-- One point on a serial line whose device never answers.
def pressure : Point := ⟨"well","pump","pressure",none,1,.holding,0,1,.int,Double.one,false,false,some 1000,1⟩
def serialSettings : Settings := {Settings.standard with format:=.rtu}
def onePoint : Catalog := ⟨Std.TreeMap.empty.insert pressure.key pressure⟩
def silentLine : Peer → Device := fun _ => ⟨fun _ => ⟨0,none⟩,fun _ _ => .answered []⟩

theorem requests_reported_once_serial : ∃ first, start serialSettings onePoint .rtu silentLine = .ok first ∧
    Delivers first [.poll pressure,.serve .serial,.clock 90000,.serve .serial] :=
  ⟨_,rfl,requests_reported_once (show start serialSettings onePoint .rtu silentLine = _ from rfl) _⟩

end Gateway
end ModbusMaster
