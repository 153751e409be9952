import ModbusMaster.Proofs.Point.Reading
import ModbusMaster.Proofs.Session.Serving
import ModbusMaster.Proofs.Stack.Station
namespace ModbusMaster

-- What a move of a station does to its single sessions, and what is known of an entry
-- that comes to one of them.

-- How urgent a request for a point is: a periodic read as its point says, others as the stack does.
def OpenRequest.rank (r : OpenRequest) : Int := if r.isOnDemand then Station.onDemandPriority else r.point.priority

inductive Puts : OpenRequest → Int → Operation → Prop where
  | periodic (p : Point) : Puts (.periodic p) p.priority (.ofPoint p)
  | demanded (i : Intent) (p : Point) (op : Option WriteValue) :
    Puts (Station.requestOf i p op) Station.onDemandPriority (Station.operationOf p op)

theorem Puts.rank {r : OpenRequest} {priority : Int} {op : Operation} (puts : Puts r priority op) : priority = r.rank := by
  cases puts with
  | periodic p => rfl
  | demanded i p op => cases op <;> rfl

theorem Puts.reads {r : OpenRequest} {priority : Int} {op : Operation} (puts : Puts r priority op)
    (reads : r.kind ≠ .onDemandWrite) : op = .ofPoint r.point := by
  cases puts with
  | periodic p => rfl
  | demanded i p op =>
    cases op with
    | none => rfl
    | some value => exact absurd rfl reads

theorem issued_accepted {h : List Happening} {r : OpenRequest} {t : Ticket} (member : (r,t) ∈ issued h) : t ∈ accepted h := by
  obtain ⟨x,among,issue⟩ := List.mem_filterMap.mp member
  cases x with
  | issued =>
    cases issue
    exact List.mem_filterMap.mpr ⟨_,among,rfl⟩
  | _ => cases issue

namespace Engine
variable {m u : Engine} {t : Target} {op : Operation} {handler : Option Handler} {e : Entry}

theorem framed?_priority (framed : m.framed? t op handler = some e) : e.priority = t.priority := by
  unfold framed? at framed
  simp only [Option.bind_eq_bind,Option.bind_eq_some_iff,Option.some.injEq] at framed
  obtain ⟨_,_,_,_,_,_,_,_,rfl⟩ := framed
  rfl

theorem call_sessions (m : Engine) (t : Target) (op : Operation) (handler : Option Handler) :
    (m.call t op handler).2.format = m.format ∧
    (((m.call t op handler).1 = .success ∧ ∃ e, m.framed? t op handler = some e ∧
        m.sessions.enqueue? (m.usageOf e.device.session) e = some (m.call t op handler).2.sessions) ∨
      ((m.call t op handler).1 ≠ .success ∧ (m.call t op handler).2.sessions = m.sessions)) := by
  have calls := call_calls m t op handler
  generalize m.call t op handler = called at calls ⊢
  obtain ⟨status,u⟩ := called
  cases calls with
  | invalid => exact ⟨rfl,.inr ⟨by simp,rfl⟩⟩
  | disabled => exact ⟨rfl,.inr ⟨by simp,rfl⟩⟩
  | offered asked told offers =>
    subst told
    cases offers with
    | queued reserved built taken =>
      obtain ⟨sessions,entered,rfl⟩ := Option.map_eq_some_iff.mp taken
      refine ⟨rfl,.inl ⟨rfl,_,?_,entered⟩⟩
      simp [framed?,asked,reserved,built,Except.toOption]
    | noSlot => exact ⟨rfl,.inr ⟨by simp,rfl⟩⟩
    | unframed => exact ⟨rfl,.inr ⟨by simp,rfl⟩⟩
    | refused => exact ⟨rfl,.inr ⟨by simp,rfl⟩⟩

end Engine

namespace Station
variable {s t : Station} {h : List Happening} {u : Engine}

inductive Enters (s : Station) : Entry → List Happening → Prop where
  | call {t op listening e} (framed : s.engine.framed? t op (listener listening) = some e) : Enters s e [.accepted e.ticket]
  | point {r id pending device priority op e} (puts : Puts r priority op)
      (registered : s.reporter.pending.register? r = some (id,pending))
      (framed : s.engine.framed? ⟨id,device,priority⟩ op (some .points) = some e) : Enters s e [.issued r e.ticket]

theorem Enters.told {e : Entry} (enters : s.Enters e h) : told h = [] := by cases enters <;> rfl

def turn? : Move → Option Peer
  | .serve key => some key
  | _ => none

theorem turn?_serve {m : Move} {key : Peer} (turns : turn? m = some key) : m = .serve key := by
  cases m with
  | serve other =>
    cases turns
    rfl
  | _ => cases turns

-- What becomes of the sessions, and which requests come and end with it: they stay, or are
-- forgotten with nothing left to them, one gets an entry, or one has its turn.
inductive Shifts (s : Station) (u : Engine) (h : List Happening) : Option Peer → Prop where
  | kept (members : u.sessions.members = s.engine.sessions.members ∨ u.sessions.members = [] ∧ s.engine.tickets = [])
      (accepted : accepted h = []) (told : told h = []) : Shifts s u h none
  | entered {e} (enters : s.Enters e h)
      (taken : s.engine.sessions.enqueue? (s.engine.usageOf e.device.session) e = some u.sessions) : Shifts s u h none
  | served (key : Peer) (turn : u.sessions = (s.engine.sessions.runSession (s.devices key) s.engine.format s.now key).1)
      (accepted : accepted h = [])
      (told : told h = endings (s.engine.sessions.runSession (s.devices key) s.engine.format s.now key).2) :
      Shifts s u h (some key)

theorem shifts_same (members : u.sessions.members = s.engine.sessions.members) (accepted : accepted h = [])
    (told : told h = []) : s.Shifts u h none := .kept (.inl members) accepted told

theorem calls_shifts (s : Station) (t : Target) (op : Operation) (listening : Bool) :
    s.Shifts (s.engine.call t op (listener listening)).2 (s.calls t op (listener listening)) none := by
  unfold calls
  rcases (s.engine.call_sessions t op (listener listening)).2 with ⟨success,e,framed,taken⟩ | ⟨other,sessions⟩
  · rw [if_pos success,framed]
    exact .entered (.call framed) taken
  · rw [if_neg other]
    exact shifts_same (congrArg SessionSet.members sessions) rfl rfl

theorem issue_shifts {r : OpenRequest} {id : UInt16} {pending : OpenRequests} {priority : Int} {op : Operation}
    (puts : Puts r priority op) (registered : s.reporter.pending.register? r = some (id,pending)) (device : DeviceAddress) :
    s.Shifts ((s.hold pending).issue r id device priority op).2.engine (s.issues r ⟨id,device,priority⟩ op) none := by
  have engine : ((s.hold pending).issue r id device priority op).2.engine =
      (s.engine.call ⟨id,device,priority⟩ op (some .points)).2 := by
    cases called : s.engine.call ⟨id,device,priority⟩ op (some .points) with
    | mk status m =>
      rcases issue_cases registered called with ⟨_,issued⟩ | ⟨_,_,_,refused⟩
      · rw [issued]
      · rw [refused]
        rfl
  rw [engine]
  unfold issues
  dsimp only
  rcases (s.engine.call_sessions ⟨id,device,priority⟩ op (some .points)).2 with ⟨success,e,framed,taken⟩ | ⟨other,sessions⟩
  · rw [if_pos success,framed]
    exact .entered (.point puts registered framed) taken
  · rw [if_neg other]
    exact shifts_same (congrArg SessionSet.members sessions) rfl rfl

theorem handle_shifts (s : Station) (raw : String) : s.Shifts (s.handle raw).2.engine (s.handles raw) none := by
  unfold handle handles
  cases s.resolve raw with
  | error f => exact shifts_same rfl rfl rfl
  | ok found =>
    obtain ⟨intent,point,device,op⟩ := found
    dsimp only
    cases registered : s.reporter.pending.register? (requestOf intent point op) with
    | none => exact shifts_same rfl rfl rfl
    | some found => exact issue_shifts (.demanded intent point op) registered device

theorem pollPoint_shifts (s : Station) (p : Point) : s.Shifts (s.pollPoint p).2.engine (s.polls p) none := by
  unfold pollPoint polls
  cases p.deviceAddress s.engine.format with
  | error d => exact shifts_same rfl rfl rfl
  | ok device =>
    dsimp only
    cases registered : s.reporter.pending.register? (OpenRequest.periodic p) with
    | none => exact shifts_same rfl rfl rfl
    | some found => exact issue_shifts (.periodic p) registered device

theorem serve_shifts (s : Station) (key : Peer) : s.Shifts (s.runSession key).engine (s.serves key) (some key) := by
  obtain ⟨run,heard⟩ := s.runSession_split key
  rw [run,heard,observeAll_engine]
  exact .served key rfl (observesAll_accepted _ _ _) (observesAll_told _ _ _)

theorem move_shifts (sound : s.engine.Sound) (m : Move) : s.Shifts (s.move m).engine (s.happens m) (turn? m) := by
  cases m with
  | configure timing =>
    refine shifts_same ?_ rfl rfl
    simp only [move,configure,Engine.configure]
    split <;> rfl
  | start =>
    simp only [move]
    split
    · rename_i ready
      simp only [Station.start,Engine.start]
      split
      · exact shifts_same rfl rfl rfl
      · rename_i disabled
        have nobody : s.engine.sessions.members = [] := by simpa [disabled] using ready
        exact shifts_same nobody.symm rfl rfl
    · exact shifts_same rfl rfl rfl
  | call t op listening =>
    simp only [move,happens]
    rw [(s.call_rest t op (listener listening)).1]
    exact s.calls_shifts t op listening
  | handle raw => exact s.handle_shifts raw
  | poll p => exact s.pollPoint_shifts p
  | serve key => exact s.serve_shifts key
  | respond w =>
    simp only [move,happens]
    split
    · have responds := s.runResponder_responds w
      exact shifts_same (congrArg (·.sessions.members) responds.engine) responds.quiet.1 responds.quiet.2
    · exact shifts_same rfl rfl rfl
  | hire count =>
    simp only [move,spawnResponders]
    rw [wakeAll_same]
    exact shifts_same rfl rfl rfl
  | clear =>
    simp only [move]
    split
    · rename_i finished
      exact .kept (.inr ⟨rfl,Engine.tickets_over sound (s.over_iff.mp finished)⟩) rfl rfl
    · exact shifts_same rfl rfl rfl
  | drain =>
    simp only [move,happens]
    rw [drain_log]
    exact shifts_same rfl (Reporter.accepted_drainedUpTo _ _) (Reporter.told_drainedUpTo _ _)
  | _ => exact shifts_same rfl rfl rfl

def setting (s : Station) : Format × (Peer → Device) := (s.engine.format,s.devices)

theorem Attempts.setting (attempts : Attempts s t h) : t.setting = s.setting := by
  cases attempts with
  | issued _ accepts => exact congrArg (·.format,s.devices) accepts.same
  | refused _ _ unmoved => exact congrArg (·.format,s.devices) unmoved.same
  | _ => rfl

theorem Observes.setting {e : SessionEvent} (observes : Observes s e t h) : t.setting = s.setting := by cases observes <;> rfl

theorem Responds.setting {w : Nat} (responds : Responds s w t h) : t.setting = s.setting := by cases responds <;> rfl

theorem observeAll_setting (key : Peer) (s : Station) (out : List SessionEvent) :
    (out.foldl (observe key) s).setting = s.setting := by
  induction out generalizing s with
  | nil => rfl
  | cons e out ih => exact (ih (observe key s e)).trans (observe_observes key s e).setting

theorem move_setting (sound : s.engine.Sound) (m : Move) : (s.move m).setting = s.setting := by
  cases m with
  | configure timing => simp only [move,configure,Engine.configure]; split <;> rfl
  | start =>
    simp only [move]
    split
    · simp only [Station.start,Engine.start]
      split <;> rfl
    · rfl
  | call t op listening =>
    simp only [move]
    rw [(s.call_rest t op (listener listening)).1]
    exact congrArg (·,s.devices) (s.engine.call_sessions t op (listener listening)).1
  | handle raw => exact (handle_attempts sound raw).setting
  | poll p => exact (pollPoint_attempts sound p).setting
  | serve key => exact observeAll_setting key {s with engine:=(s.engine.runSession (s.devices key) s.now key).1} _
  | respond w =>
    simp only [move]
    split
    · exact (s.runResponder_responds w).setting
    · rfl
  | hire count =>
    simp only [move,spawnResponders]
    rw [wakeAll_same]
    rfl
  | clear => simp only [move]; split <;> rfl
  | drain =>
    simp only [move]
    rw [drain_log]
    rfl
  | _ => rfl

theorem moves_setting (sound : Sound s) (ms : List Move) : (s.moves ms).setting = s.setting := by
  induction ms generalizing s with
  | nil => rfl
  | cons m ms ih => exact (ih (move_sound sound m)).trans (move_setting sound.engine m)

end Station
end ModbusMaster
