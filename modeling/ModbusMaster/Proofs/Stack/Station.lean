import ModbusMaster.Proofs.Reporting.Staff
import ModbusMaster.Proofs.Stack.Moves
namespace ModbusMaster.Station
variable {s t : Station} {h : List Happening} {e : SessionEvent}

-- What holds of a station along every run: the table of its stack is right, every response
-- that waits has a permit, and only responders it has hired are to be run.
structure Sound (s : Station) : Prop where
  engine : s.engine.Sound
  staffs : s.responders.Staffs s.reporter.queue
  ready : ∀ w, .responder w ∈ s.agenda → w < s.responders.spawned

theorem sound_create (format : Format) (slots capacity writeCapacity : Nat) (catalog : Catalog) (devices : Peer → Device) :
    Sound (create format slots capacity writeCapacity catalog devices) :=
  ⟨Engine.sound_create format slots,Pool.staffs_empty capacity,fun w member => by cases member⟩

theorem ready_wake (ready : ∀ w, .responder w ∈ s.agenda → w < s.responders.spawned) {a : Task}
    (other : ∀ w, a ≠ .responder w) (w : Nat) (member : .responder w ∈ (s.wake a).agenda) : w < s.responders.spawned := by
  rcases (mem_wake s a _).mp member with same | old
  · exact absurd same.symm (other w)
  · exact ready w old

theorem Attempts.sound (attempts : Attempts s t h) (sound : Sound s) : Sound t := by
  have engine := (attempts.exchanges sound.engine).sound
  cases attempts with
  | issued _ _ _ _ ready => exact ⟨engine,sound.staffs,ready ▸ ready_wake sound.ready (by simp)⟩
  | _ => exact ⟨engine,sound.staffs,sound.ready⟩

theorem Observes.sound (observes : Observes s e t h) (sound : Sound s) : Sound t := by
  have engine : t.engine.Sound := observes.engine ▸ sound.engine
  cases observes with
  | line => exact ⟨engine,sound.staffs,sound.ready⟩
  | caller => exact ⟨engine,sound.staffs,sound.ready⟩
  | @queued c q agenda room ready =>
    refine ⟨engine,Pool.grant_staffs sound.staffs room,?_⟩
    intro w member
    change w < (s.responders.grant q).1.spawned
    rw [(s.responders.grant_staff q).2]
    change .responder w ∈ agenda at member
    rw [ready] at member
    rcases (mem_wakeAll s _ _).mp member with woken | old
    · obtain ⟨v,woken,same⟩ := List.mem_map.mp woken
      cases same
      exact sound.staffs.known w (Pool.grant_woken (by simpa using woken))
    · exact sound.ready w old
  | full =>
    refine ⟨engine,?_,sound.ready⟩
    change s.responders.Staffs (s.reporter.process _).2.queue
    rw [Reporter.process_queue]
    exact sound.staffs

theorem observeAll_sound (key : Peer) (sound : Sound s) (out : List SessionEvent) :
    Sound (out.foldl (observe key) s) := by
  induction out generalizing s with
  | nil => exact sound
  | cons e out ih => exact ih ((observe_observes key s e).sound sound)

theorem Responds.sound {w : Nat} (responds : Responds s w t h) (sound : Sound s) (known : w < s.responders.spawned) :
    Sound t := by
  obtain ⟨_,parked,spawned,_⟩ := s.responders.resume_staff s.reporter.queue w
  obtain ⟨resumed,awake⟩ := Pool.resume_staffs sound.staffs w
  cases responds with
  | left => exact ⟨sound.engine,Pool.leave_staffs resumed w,fun v member => spawned.symm ▸ sound.ready v member⟩
  | waits => exact sound
  | works _ standing same =>
    refine ⟨sound.engine,Reporter.drainUpTo_staffs ?_,fun v member => spawned.symm ▸ sound.ready v member⟩
    rw [same]
    exact Pool.park_staffs resumed awake (parked.symm ▸ standing) (spawned.symm ▸ known)

theorem call_rest (s : Station) (t : Target) (op : Operation) (handler : Option Handler) :
    (s.call t op handler).2 = {s with engine:=(s.engine.call t op handler).2,agenda:=(s.call t op handler).2.agenda} ∧
      ∀ a, a ∈ (s.call t op handler).2.agenda → a = .session t.device.session ∨ a ∈ s.agenda := by
  unfold call
  dsimp only
  split
  · refine ⟨by rw [wake_same],?_⟩
    intro a member
    rcases (mem_wake _ _ a).mp member with same | old
    · exact .inl same
    · exact .inr old
  · exact ⟨rfl,fun a member => .inr member⟩

theorem move_sound (sound : Sound s) (m : Move) : Sound (s.move m) := by
  have engine := (move_exchanges sound.engine m).sound
  cases m with
  | start =>
    have rest : s.move .start = {s with engine:=(s.move .start).engine} := by simp only [move]; split <;> rfl
    rw [rest]
    exact ⟨engine,sound.staffs,sound.ready⟩
  | call t op listening =>
    obtain ⟨rest,agenda⟩ := s.call_rest t op (listener listening)
    have ready : ∀ w, .responder w ∈ (s.call t op (listener listening)).2.agenda → w < s.responders.spawned := by
      intro w member
      rcases agenda _ member with other | old
      · cases other
      · exact sound.ready w old
    simp only [move] at engine ⊢
    refine ⟨engine,?_,?_⟩ <;> rw [rest]
    · exact sound.staffs
    · exact ready
  | handle raw => exact (handle_attempts sound.engine raw).sound sound
  | poll p => exact (pollPoint_attempts sound.engine p).sound sound
  | serve key =>
    have served := Engine.runSession_exchanges sound.engine (s.devices key) s.now key
    refine observeAll_sound key (s:={s with engine:=(s.engine.runSession (s.devices key) s.now key).1}) ?_ _
    exact ⟨served.sound,sound.staffs,sound.ready⟩
  | respond w =>
    simp only [move]
    split
    · rename_i known
      exact (s.runResponder_responds w).sound sound known
    · exact sound
  | hire count =>
    simp only [move,spawnResponders] at engine ⊢
    refine ⟨engine,?_,?_⟩
    · rw [wakeAll_same]
      exact Pool.spawn_staffs sound.staffs count
    · intro w member
      rw [wakeAll_same]
      change w < s.responders.spawned+max count 1
      rcases (mem_wakeAll _ _ _).mp member with hired | old
      · obtain ⟨v,new,same⟩ := List.mem_map.mp hired
        cases same
        obtain ⟨i,below,rfl⟩ := List.mem_map.mp new
        have := List.mem_range.mp below
        omega
      · have := sound.ready w old
        omega
  | clear =>
    have rest : s.move .clear = {s with engine:=(s.move .clear).engine} := by simp only [move]; split <;> rfl
    rw [rest]
    exact ⟨engine,sound.staffs,sound.ready⟩
  | drain =>
    simp only [move] at engine ⊢
    refine ⟨engine,?_,?_⟩ <;> rw [drain_log]
    · exact Reporter.drainUpTo_staffs sound.staffs
    · exact sound.ready
  | arrange agenda intents writers poller =>
    refine ⟨engine,sound.staffs,?_⟩
    intro w member
    have known : s.knows (.responder w) = true := (List.mem_filter.mp member).2
    exact of_decide_eq_true known
  | _ => exact ⟨engine,sound.staffs,sound.ready⟩

end ModbusMaster.Station
