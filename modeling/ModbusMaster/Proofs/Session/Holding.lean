import ModbusMaster.Session.Set
import ModbusMaster.Proofs.Session.Steps
namespace ModbusMaster

-- What a session holds: the request in service and those in its queue. Whatever a
-- session does, a request leaves it only by being completed, and exactly then.

structure Ticket where
  id : UInt16
  app : UInt16
  function : Function
  device : DeviceAddress
  address : UInt16
  quantity : UInt16
  handler : Handler
  deriving Repr, DecidableEq

def Ticket.record (t : Ticket) : TransactionRecord := ⟨t.app,t.function,t.device⟩

def Entry.ticket (e : Entry) : Ticket := ⟨e.id,e.app,e.function,e.device,e.address,e.quantity,e.handler⟩

def Completion.ticket (c : Completion) (h : Handler) : Ticket :=
  ⟨c.id,c.app,c.function,c.device,c.address,c.quantity,h⟩

@[simp] theorem Entry.ticket_complete (e : Entry) (o : Outcome) (r : Option Response) (now : Time.Instant) :
    (e.complete o r now).ticket e.handler = e.ticket := rfl

def SessionEvent.ending? : SessionEvent → Option (Completion × Handler)
  | .done c h => some (c,h)
  | _ => none

def endings (out : List SessionEvent) : List (Completion × Handler) := out.filterMap SessionEvent.ending?

@[simp] theorem endings_append (a b : List SessionEvent) : endings (a ++ b) = endings a ++ endings b :=
  List.filterMap_append

def ended (out : List SessionEvent) : List Ticket := (endings out).map fun x => x.1.ticket x.2

@[simp] theorem ended_nil : ended [] = [] := rfl
@[simp] theorem ended_append (a b : List SessionEvent) : ended (a ++ b) = ended a ++ ended b := by simp [ended]

namespace PriorityQueue
variable {q r : PriorityQueue} {e : Entry}

theorem place_perm (e : Entry) (es : List Entry) : (place e es).Perm (e::es) := by
  induction es with
  | nil => exact List.Perm.refl _
  | cons x rest ih =>
    simp only [place]
    split
    · exact List.Perm.refl _
    · exact (ih.cons x).trans (List.Perm.swap e x rest)

theorem push?_perm (pushed : q.push? e = some r) : r.entries.Perm (e::q.entries) := by
  unfold push? at pushed
  split at pushed
  · cases pushed
    exact place_perm e q.entries
  · cases pushed

theorem take_front {n : Nat} (taken : take n q = (some e,r)) : q.entries = e::r.entries := by
  fun_induction take n q with
  | case1 => simp at taken
  | case2 n x rest front =>
    simp only [Prod.mk.injEq,Option.some.injEq] at taken
    obtain ⟨rfl,rfl⟩ := taken
    exact front
  | case3 n empty ih => exact ih taken

theorem pop_front (popped : q.pop false = (.item e,r)) : q.entries = e::r.entries := by
  unfold pop at popped
  simp only [Bool.false_eq_true,if_false] at popped
  split at popped
  · rename_i taken
    simp only [Prod.mk.injEq,BoundedQueue.Taken.item.injEq] at popped
    obtain ⟨rfl,rfl⟩ := popped
    exact take_front taken
  · simp at popped

end PriorityQueue

namespace Session
variable {s t : Session} {device : Device} {format : Format} {timing : Timing} {now : Nat} {e : Entry}

def held (s : Session) : List Entry := s.current?.toList ++ s.queue.entries

def tickets (s : Session) : List Ticket := s.held.map Entry.ticket

-- A result of some activity of a session from which no request was lost and to which
-- none was added: what is no longer held has been completed.
structure Conserves (s : Session) (r : Session × List SessionEvent) : Prop where
  key : r.1.key = s.key
  tickets : s.tickets = ended r.2 ++ r.1.tickets

theorem conserves_quiet {out : List SessionEvent} (key : t.key = s.key) (held : t.held = s.held)
    (quiet : ended out = []) : Conserves s (t,out) := ⟨key,by simp [Session.tickets,held,quiet]⟩

theorem conserves_finish (key : t.key = s.key) (queue : t.queue = s.queue) (serving : s.current? = some e)
    (outcome : Outcome) (r : Option Response) : Conserves s (t.finish now e outcome r) := by
  refine ⟨key,?_⟩
  rw [Session.tickets,Session.tickets,held,held,serving]
  simp [finish,queue,current?,ended,endings,SessionEvent.ending?]

theorem conserves_fail (key : t.key = s.key) (queue : t.queue = s.queue) (serving : s.current? = some e)
    (started : Nat) (f : Fault) : Conserves s (t.fail now e started f) := by
  unfold fail
  exact conserves_finish (by exact key) (by exact queue) serving _ _

theorem conserves_cons {x : SessionEvent} (quiet : x.ending? = none) {r : Session × List SessionEvent}
    (conserves : Conserves s r) : Conserves s (r.1,x::r.2) :=
  ⟨conserves.key,by simpa [ended,endings,quiet] using conserves.tickets⟩

theorem held_serving (queue : t.queue = s.queue) (serving : s.current? = some e) (still : t.current? = some e) :
    t.held = s.held := by rw [held,held,queue,serving,still]

theorem conserves_expire {x : Attempt} (serving : s.current? = some x.entry) :
    Conserves s (s.expire timing now x) := by
  unfold expire
  dsimp only
  split
  · refine conserves_quiet ?_ (held_serving ?_ serving ?_) ?_ <;> rfl
  · refine conserves_finish ?_ ?_ serving _ _ <;> rfl

theorem conserves_receive {x : Attempt} (key : t.key = s.key) (queue : t.queue = s.queue) (phase : t.phase = s.phase)
    (serving : s.current? = some x.entry) (item : Except Fault Bytes) :
    Conserves s (t.receive format now x item) := by
  have same (m : Metrics) : held {t with metrics:=m} = s.held := by simp [held,current?,phase,queue]
  unfold receive
  split
  · split
    · exact conserves_fail key queue serving _ _
    · exact conserves_quiet key (same t.metrics) ended_nil
  · split
    · exact conserves_finish (by exact key) (by exact queue) serving _ _
    · exact conserves_quiet key (same _) ended_nil
    · exact conserves_quiet key (same t.metrics) ended_nil

theorem conserves_transmit {x : Attempt} {l : Line} (serving : s.current? = some x.entry) :
    Conserves s (s.transmit device timing now x l) := by
  unfold transmit
  dsimp only
  split
  · refine conserves_cons rfl (conserves_fail ?_ ?_ serving _ _) <;> rfl
  · refine conserves_quiet ?_ (held_serving ?_ serving ?_) ?_ <;> rfl

theorem conserves_connected (serving : s.current? = some e) (failure : Option Fault) :
    Conserves s (s.connected timing now e failure) := by
  cases failure with
  | some f => exact conserves_cons rfl (conserves_fail rfl rfl serving _ _)
  | none => refine conserves_quiet ?_ (held_serving ?_ serving ?_) ?_ <;> rfl

theorem held_takeUp (device : Device) (timing : Timing) (now : Nat) (e : Entry) :
    (s.takeUp device timing now e).key = s.key ∧ (s.takeUp device timing now e).held = e::s.queue.entries := by
  unfold takeUp
  split <;> simp [held,current?,begin]

theorem conserves_step {r : Session × List SessionEvent} (steps : Steps device format timing now s r) :
    Conserves s r := by
  cases steps with
  | @taken e q phase popped =>
    obtain ⟨key,held'⟩ := held_takeUp (s:={s with queue:=q}) device timing now e
    refine conserves_quiet key ?_ ended_nil
    rw [held',held,PriorityQueue.pop_front popped]
    simp [current?,phase]
  | dialed phase => exact conserves_connected (by simp [current?,phase]) _
  | sent phase => exact conserves_transmit (by simp [current?,phase])
  | lost phase => exact conserves_fail rfl rfl (by simp [current?,phase]) _ _
  | received phase => refine conserves_receive ?_ ?_ ?_ (by simp only [current?,phase]) _ <;> rfl
  | expired phase => exact conserves_expire (by simp only [current?,phase])

theorem conserves_run (device : Device) (format : Format) (timing : Timing) (now : Nat) (s : Session) :
    Conserves s (s.run device format timing now) := by
  fun_induction run device format timing now s with
  | case1 s quiet => exact conserves_quiet rfl rfl ended_nil
  | case2 s t out stepped u more rest ih =>
    have first := conserves_step (step_sound stepped)
    rw [rest] at ih
    refine ⟨ih.key.trans first.key,?_⟩
    rw [first.tickets,ih.tickets,ended_append,List.append_assoc]

theorem step_live {r : Session × List SessionEvent} (steps : Steps device format timing now s r) :
    r.1.phase ≠ .stopped := by
  cases steps with
  | taken => unfold takeUp; split <;> simp [begin]
  | dialed _ _ => rename_i failure _ _; cases failure <;> simp [connected,begin,fail,finish]
  | sent => unfold transmit; dsimp only; split <;> simp [fail,finish]
  | lost => simp [fail,finish]
  | received phase => unfold receive; split <;> split <;> simp [fail,finish,phase]
  | expired => unfold expire; dsimp only; split <;> simp [finish]

theorem run_live (live : s.phase ≠ .stopped) : (s.run device format timing now).1.phase ≠ .stopped := by
  fun_induction run device format timing now s with
  | case1 s quiet => exact live
  | case2 s t out stepped u more rest ih =>
    rw [rest] at ih
    exact ih (step_live (step_sound stepped))

theorem ended_shutdown (now : Time.Instant) (es : List Entry) :
    ended (es.map fun e => .done (e.complete .shutdown none now) e.handler) = es.map Entry.ticket := by
  induction es with
  | nil => rfl
  | cons e es ih => exact congrArg (e.ticket::·) ih

def closing (s : Session) : List SessionEvent := (s.line.map fun l => SessionEvent.close l.sent).toList

theorem halt_stopped (finished : s.phase = .stopped) : s.halt now = (s,[]) := by simp [halt,finished]

theorem halt_live (live : s.phase ≠ .stopped) : s.halt now = ({s with queue:=s.queue.close.2,phase:=.stopped,line:=none},
    (s.held.map fun e => .done (e.complete .shutdown none (Time.Instant.ofMicros now)) e.handler) ++ s.closing) := by
  unfold halt
  cases phase : s.phase with
  | stopped => exact absurd phase live
  | _ => cases line : s.line <;> simp [closing,line,held,current?,phase,PriorityQueue.close]

theorem conserves_halt (now : Nat) (s : Session) : Conserves s (s.halt now) := by
  by_cases finished : s.phase = .stopped
  · rw [halt_stopped finished]
    exact conserves_quiet rfl rfl ended_nil
  · rw [halt_live finished]
    refine ⟨rfl,?_⟩
    have nothing : tickets {s with queue:=s.queue.close.2,phase:=.stopped,line:=none} = [] := rfl
    have closed : ended s.closing = [] := by cases line : s.line <;> simp [closing,line,ended,endings,SessionEvent.ending?]
    rw [nothing,ended_append,ended_shutdown,closed,List.append_nil,List.append_nil,tickets]

theorem halt_phase (now : Nat) (s : Session) : (s.halt now).1.phase = .stopped := by
  by_cases finished : s.phase = .stopped
  · rw [halt_stopped finished]
    exact finished
  · rw [halt_live finished]

end Session
end ModbusMaster
