import ModbusMaster.Proofs.Session.Turns
namespace ModbusMaster.Session
variable {device : Device} {format : Format} {timing : Timing} {up : Bool} {now : Nat} {s : Session} {e : Entry}

-- A session wait by wait. Its dispatcher waits for an entry, for the connection, for its turn
-- on the line and for an answer, and at each of these the flag comes before what it waits for.

def failed (now : Nat) (e : Entry) : SessionEvent := .done (e.complete .shutdown none (Time.Instant.ofMicros now)) e.handler

def drain (now : Nat) (s : Session) : Session × List SessionEvent :=
  ({s with queue:=s.queue.close.2,phase:=.stopped,line:=none},s.queue.close.1.map (failed now) ++ s.closing)

def giveUp (now : Nat) (s : Session) (e : Entry) : Session × List SessionEvent :=
  ((s.drain now).1,failed now e::(s.drain now).2)

def wake (device : Device) (format : Format) (timing : Timing) (up : Bool) (now : Nat) (s : Session) :
    Option (Session × List SessionEvent) :=
  match s.phase with
  | .idle => match s.queue.pop up with
    | (.shutdown,q) => some (drain now {s with queue:=q})
    | (.item e,q) => some (takeUp {s with queue:=q} device timing now e,[])
    | (.pending,_) => none
  | .dialing e ready failure =>
    if up then some (s.giveUp now e)
    else if ready ≤ now then some (s.connected timing now e failure)
    else none
  -- the first frame of all has nothing to wait for: there this is but one more look at the flag
  | .pausing x ready =>
    if up then some (s.giveUp now x.entry)
    else if ready ≤ now then
      match s.line with
      | some l => some (s.transmit device timing now x l)
      | none => some (s.fail now x.entry x.started (.connection "transport closed"))
    else none
  | .awaiting x deadline => match s.line with
    -- without a connection there is nothing to wait for
    | none => some (s.expire timing now x)
    | some l =>
      if up then some (s.giveUp now x.entry)
      else match l.inbox with
        | (ready,item)::rest =>
          if ready ≤ now then some (receive {s with line:=some {l with inbox:=rest}} format now x item)
          else if deadline ≤ now then some (s.expire timing now x)
          else none
        | [] => if deadline ≤ now then some (s.expire timing now x) else none
  | .stopped => none

def Wired (s : Session) : Prop := ∀ x deadline, s.phase = .awaiting x deadline → s.line ≠ none

theorem pop_open (q : PriorityQueue) : ∀ r, q.pop false ≠ (.shutdown,r) := by
  intro r
  unfold PriorityQueue.pop
  simp only [Bool.false_eq_true,if_false]
  split <;> simp

theorem wake_down (s : Session) : s.wake device format timing false now = s.step device format timing now := by
  unfold wake step
  cases phase : s.phase with
  | idle =>
    have never := pop_open s.queue
    generalize s.queue.pop false = popped at never
    obtain ⟨taken,q⟩ := popped
    cases taken with
    | shutdown => exact absurd rfl (never q)
    | _ => rfl
  | _ => rfl

theorem wake_up (device : Device) (format : Format) (timing : Timing) (now : Nat) (wired : s.Wired)
    (live : s.phase ≠ .stopped) : s.wake device format timing true now = some (s.halt now) := by
  rw [halt_live live]
  unfold wake
  cases phase : s.phase with
  | idle => simp only [PriorityQueue.pop,if_true,drain,closing,held,current?,phase]; rfl
  | dialing e => simp only [if_true,giveUp,drain,closing,held,current?,phase]; rfl
  | pausing x => simp only [if_true,giveUp,drain,closing,held,current?,phase]; rfl
  | awaiting x deadline =>
    cases line : s.line with
    | none => exact absurd line (wired x deadline phase)
    | some l => simp only [if_true,giveUp,drain,closing,held,current?,phase,line]; rfl
  | stopped => exact absurd phase live

theorem wake_stopped (finished : s.phase = .stopped) : s.wake device format timing up now = none := by simp [wake,finished]

theorem wake_key {r : Session × List SessionEvent} (woken : s.wake device format timing up now = some r) :
    r.1.key = s.key := by
  cases up with
  | false =>
    rw [wake_down] at woken
    exact (conserves_step (step_sound woken)).key
  | true =>
    unfold wake at woken
    cases phase : s.phase with
    | stopped => simp [phase] at woken
    | awaiting x deadline =>
      cases line : s.line with
      | none =>
        simp only [phase,line,Option.some.injEq] at woken
        subst woken
        exact (conserves_expire (by simp [current?,phase])).key
      | some l =>
        simp only [phase,line,if_true,Option.some.injEq] at woken
        subst woken
        rfl
    | _ =>
      simp only [phase,if_true,PriorityQueue.pop,Option.some.injEq] at woken
      subst woken
      rfl

theorem wired_step {r : Session × List SessionEvent} (stepped : s.step device format timing now = some r) :
    r.1.Wired := by
  intro x deadline waits
  cases steps_turns (step_sound stepped) with
  | sent => simp
  | strayed => simp
  | _ => cases waits

theorem Ends.outcome {outcome : Outcome} {seen : List SessionEvent} {t : Session}
    (ends : Ends device format timing now s e outcome seen t) :
    outcome ≠ .shutdown ∧ ∀ c h, .done c h ∉ seen := by
  cases ends with
  | @answered _ _ _ _ _ _ r =>
    refine ⟨?_,by simp⟩
    unfold Response.outcome
    split <;> simp
  | _ => simp

theorem step_outcomes {r : Session × List SessionEvent} (stepped : s.step device format timing now = some r) :
    ∀ c h, .done c h ∈ r.2 → c.outcome ≠ .shutdown := by
  intro c h told
  cases steps_turns (step_sound stepped) with
  | ended ends =>
    obtain ⟨other,unseen⟩ := ends.outcome
    rcases List.mem_append.mp told with seen | done
    · exact absurd seen (unseen c h)
    · cases List.mem_singleton.mp done
      exact other
  | _ => simp at told

end ModbusMaster.Session
