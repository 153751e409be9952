import ModbusMaster.Proofs.Stack.Rounds
namespace ModbusMaster.Station
variable {s : Station} {h : List Happening}

-- Every request that a stack accepts is completed once and told to its handler once,
-- whatever the callers, the devices and the clock do and whenever the stack is ended.

structure Accounted (s : Station) (h : List Happening) : Prop where
  sound : Sound s
  ids : ∀ id, Balanced (·.id == id) (accepted h) (toldTickets h) s.engine.tickets
  freed : ∀ c k live, .told c k live ∈ h → live = false
  seen : shown s.log = notes h

theorem accounted_create (format : Format) (slots capacity writeCapacity : Nat) (catalog : Catalog)
    (devices : Peer → Device) : Accounted (create format slots capacity writeCapacity catalog devices) [] :=
  ⟨sound_create format slots capacity writeCapacity catalog devices,fun _ => balanced_nil _,by simp,rfl⟩

theorem accounted_move (accounted : Accounted s h) (m : Move) : Accounted (s.move m) (h ++ s.happens m) := by
  obtain ⟨sound,ids,freed,seen⟩ := accounted
  have exchanges := move_exchanges sound.engine m
  refine ⟨move_sound sound m,?_,?_,?_⟩
  · intro id
    rw [accepted_append,toldTickets_append]
    refine balanced_exchange (ids id) exchanges.tickets exchanges.single ?_
    intro t entering marked
    have same : t.id = id := by simpa using marked
    exact (Engine.free_iff sound.engine id).mp (same ▸ exchanges.fresh t entering)
  · intro c k live member
    rcases List.mem_append.mp member with before | now
    · exact freed c k live before
    · exact move_freed sound.engine now
  · rw [move_shown sound.engine,seen,notes_append]

theorem accounted_moves (accounted : Accounted s h) (ms : List Move) :
    Accounted (s.moves ms) (h ++ s.history ms) :=
  moves_invariant Accounted (fun _ _ m accounted => accounted_move accounted m) accounted ms

theorem Accounted.outstanding (accounted : Accounted s h) (id : UInt16) :
    ∃ left, (accepted h).filter (·.id == id) = (toldTickets h).filter (·.id == id) ++ left ∧
      left.map Ticket.record = (s.engine.table.get? id).toList :=
  ⟨s.engine.tickets.filter (·.id == id),(accounted.ids id).account,(accounted.sound.engine.records id).symm⟩

theorem shutdown_tickets (s : Station) : s.shutdown.engine.tickets = [] := rfl

theorem requests_complete_once (format : Format) (slots capacity writeCapacity : Nat) (catalog : Catalog)
    (devices : Peer → Device) (ms : List Move) :
    let first := create format slots capacity writeCapacity catalog devices
    let s := first.moves ms
    let h := first.history ms
    let all := first.history (ms ++ s.ending)
    -- at every point the records are those of the requests accepted and not yet told of
    (∀ id, ∃ left, (accepted h).filter (·.id == id) = (toldTickets h).filter (·.id == id) ++ left ∧
      left.map Ticket.record = (s.engine.table.get? id).toList) ∧
    -- and no handler has been called while the id of its request was in use
    (∀ c k live, .told c k live ∈ h → live = false) ∧ shown s.log = notes h ∧
    -- a call is accepted as asked for, or leaves records, queues and sessions as they were
    (∀ t op handler, (s.engine.call t op handler).1 = .success →
      ∃ e : Entry, s.calls t op handler = [.accepted e.ticket] ∧ e.app = t.app ∧ e.device = t.device ∧
        some e.handler = handler ∧ ∃ r n, op.request? = some (r,n) ∧ e.function = r.function ∧ e.address = r.address ∧
          e.quantity = r.quantity) ∧
    (∀ t op handler, (s.engine.call t op handler).1 ≠ .success → s.calls t op handler = [] ∧
      (s.call t op handler).2 = {s with engine:={s.engine with table:=(s.engine.call t op handler).2.table}} ∧
      ∀ id, (s.engine.call t op handler).2.table.get? id = s.engine.table.get? id) ∧
    -- by the end of the stack each accepted request has been told of
    first.moves (ms ++ s.ending) = s.shutdown ∧ s.shutdown.engine.sessions.members = [] ∧
    (∀ id, s.shutdown.engine.table.get? id = none) ∧
    (∀ id, (accepted all).filter (·.id == id) = (toldTickets all).filter (·.id == id)) ∧
    ∀ c k live, .told c k live ∈ all → live = false := by
  intro first s h all
  have accounted : Accounted s h := accounted_moves (accounted_create _ _ _ _ _ _) ms
  have ended : first.moves (ms ++ s.ending) = s.shutdown := by
    rw [moves_append]
    exact ending_moves accounted.sound
  have closed : Accounted s.shutdown all := by
    have := accounted_moves (accounted_create format slots capacity writeCapacity catalog devices) (ms ++ s.ending)
    rw [ended] at this
    exact this
  have calls (t : Target) (op : Operation) (handler : Option Handler) := Engine.call_cases accounted.sound.engine t op handler
  refine ⟨accounted.outstanding,accounted.freed,accounted.seen,?_,?_,ended,rfl,?_,?_,closed.freed⟩
  · intro t op handler success
    obtain ⟨_,e,entered,_⟩ := (calls t op handler).resolve_right fun refused => refused.1 success
    refine ⟨e,?_,Engine.framed?_target entered⟩
    simp [Station.calls,success,entered]
  · intro t op handler other
    have unmoved := ((calls t op handler).resolve_left fun success => other success.1).2
    refine ⟨if_neg other,?_,unmoved.records⟩
    simp only [call]
    rw [if_neg other,← unmoved.same]
  · intro id
    exact (Engine.free_iff closed.sound.engine id).mpr (by rw [shutdown_tickets]; rfl)
  · intro id
    have account := (closed.ids id).account
    rwa [shutdown_tickets,List.filter_nil,List.append_nil] at account

end ModbusMaster.Station
