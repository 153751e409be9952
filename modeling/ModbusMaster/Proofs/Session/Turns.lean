import ModbusMaster.Proofs.Session.Holding
namespace ModbusMaster.Session
variable {device : Device} {format : Format} {timing : Timing} {now : Nat} {s : Session}

-- What one step of a session comes to, told outright: how the request in service goes on,
-- or how it ends.

def Stray (format : Format) (e : Entry) : Except Fault Bytes → Prop
  | .error f => f.isTransport = false
  | .ok frame => ∀ r, relevance format e frame ≠ .matched r

-- The ways in which a request ends that is served: by which outcome, with what on the line
-- at that time, and what becomes of the session but for its phase.
inductive Ends (device : Device) (format : Format) (timing : Timing) (now : Nat) (s : Session) :
    Entry → Outcome → List SessionEvent → Session → Prop where
  | unreachable {e ready f} (phase : s.phase = .dialing e ready (some f)) :
      Ends device format timing now s e (.transport f.message) [.connect false]
        {s with line:=none,metrics:=s.metrics.failure (now-now)}
  | refused {x ready} {f : Fault} (phase : s.phase = .pausing x ready) (due : ready ≤ now) :
      Ends device format timing now s x.entry (.transport f.message) [.sendFailed x.entry.frame]
        {s with lastSent:=some now,usage:={s.usage with sent:=s.usage.sent+1},line:=none,
                metrics:=s.metrics.failure (now-x.started)}
  | lost {x ready} (phase : s.phase = .pausing x ready) (line : s.line = none) :
      Ends device format timing now s x.entry (.transport (Fault.connection "transport closed").message) []
        {s with line:=none,metrics:=s.metrics.failure (now-x.started)}
  | answered {x deadline l ready frame rest r} (phase : s.phase = .awaiting x deadline) (line : s.line = some l)
      (first : l.inbox = (ready,.ok frame)::rest) (due : ready ≤ now)
      (matched : relevance format x.entry frame = .matched r) :
      Ends device format timing now s x.entry r.outcome []
        {s with line:=some {l with inbox:=rest},metrics:=s.metrics.success (now-x.started)}
  | broken {x deadline l ready f rest} (phase : s.phase = .awaiting x deadline) (line : s.line = some l)
      (first : l.inbox = (ready,.error f)::rest) (due : ready ≤ now) (transport : f.isTransport = true) :
      Ends device format timing now s x.entry (.transport f.message) []
        {s with line:=none,metrics:=s.metrics.failure (now-x.started)}
  | timedOut {x deadline} (phase : s.phase = .awaiting x deadline) (last : x.left = 0) (silent : s.Silent now)
      (due : deadline ≤ now ∨ s.line = none) :
      Ends device format timing now s x.entry .timeout []
        {s with metrics:=Metrics.failure {s.metrics with timeouts:=s.metrics.timeouts+1} (now-x.started)}

inductive Turns (device : Device) (format : Format) (timing : Timing) (now : Nat) (s : Session) :
    Session × List SessionEvent → Prop where
  | dialing {e q} (phase : s.phase = .idle) (popped : s.queue.pop false = (.item e,q)) (line : s.line = none)
    (ready : Nat)
      (failure : Option Fault) (usage : Usage) :
      Turns device format timing now s ({s with queue:=q,phase:=.dialing e ready failure,usage:=usage},[])
  | resumed {e q} (phase : s.phase = .idle) (popped : s.queue.pop false = (.item e,q)) (line : s.line ≠ none) :
      Turns device format timing now s (begin {s with queue:=q} timing now e,[])
  | connected {e ready} (phase : s.phase = .dialing e ready none) :
      Turns device format timing now s (begin {s with line:=some ⟨[],0⟩} timing now e,[.connect true])
  | sent {x ready l} (phase : s.phase = .pausing x ready) (due : ready ≤ now) (line : s.line = some l)
      (inbox : List (Nat × Except Fault Bytes)) :
      Turns device format timing now s
        ({s with line:=some ⟨inbox,l.sent+1⟩,phase:=.awaiting x (now+timing.responseUs),lastSent:=some now,
                 usage:={s.usage with sent:=s.usage.sent+1}},[.send x.entry.frame])
  | strayed {x deadline l ready item rest} (phase : s.phase = .awaiting x deadline) (line : s.line = some l)
      (first : l.inbox = (ready,item)::rest) (due : ready ≤ now) (stray : Stray format x.entry item) (orphans : Nat) :
      Turns device format timing now s
        ({s with line:=some {l with inbox:=rest},metrics:={s.metrics with orphans:=orphans}},[])
  | retried {x deadline n} (phase : s.phase = .awaiting x deadline) (left : x.left = n+1) (silent : s.Silent now)
      (due : deadline ≤ now ∨ s.line = none) :
      Turns device format timing now s
        ({s with metrics:={s.metrics with timeouts:=s.metrics.timeouts+1,retries:=s.metrics.retries+1},
                 phase:=.pausing {x with left:=n} (s.turn timing now)},[])
  | ended {e outcome seen t} (ends : Ends device format timing now s e outcome seen t) (r : Option Response) :
      Turns device format timing now s
        ({t with phase:=.idle},seen ++ [.done (e.complete outcome r (Time.Instant.ofMicros now)) e.handler])

theorem Ends.serving {e : Entry} {outcome : Outcome} {seen : List SessionEvent} {t : Session}
    (ends : Ends device format timing now s e outcome seen t) : s.current? = some e := by
  unfold current?
  cases ends with
  | unreachable phase => rw [phase]
  | refused phase => rw [phase]
  | lost phase => rw [phase]
  | answered phase => rw [phase]
  | broken phase => rw [phase]
  | timedOut phase => rw [phase]

theorem receive_turns {x : Attempt} {deadline ready : Nat} {l : Line} {item : Except Fault Bytes}
    {rest : List (Nat × Except Fault Bytes)} (phase : s.phase = .awaiting x deadline) (line : s.line = some l)
    (first : l.inbox = (ready,item)::rest) (due : ready ≤ now) :
    Turns device format timing now s (receive {s with line:=some {l with inbox:=rest}} format now x item) := by
  cases item with
  | error f =>
    by_cases transport : f.isTransport = true
    · simp only [receive,if_pos transport]
      exact .ended (.broken phase line first due transport) none
    · simp only [receive,if_neg transport]
      exact .strayed phase line first due (Bool.eq_false_iff.mpr transport) s.metrics.orphans
  | ok frame =>
    cases read : relevance format x.entry frame with
    | matched r =>
      simp only [receive,read]
      exact .ended (.answered phase line first due read) (some r)
    | orphan =>
      simp only [receive,read]
      exact .strayed phase line first due (fun r => by simp [read]) (s.metrics.orphans+1)
    | undecodable =>
      simp only [receive,read]
      exact .strayed phase line first due (fun r => by simp [read]) s.metrics.orphans

theorem steps_turns {r : Session × List SessionEvent} (steps : Steps device format timing now s r) :
    Turns device format timing now s r := by
  cases steps with
  | @taken e q phase popped =>
    unfold takeUp
    dsimp only
    split
    · rename_i l line
      exact .resumed phase popped (by simp [line])
    · rename_i line
      exact .dialing phase popped line _ _ _
  | @dialed e ready failure phase due =>
    cases failure with
    | some f => exact .ended (.unreachable phase) none
    | none => exact .connected phase
  | @sent x ready l phase due line =>
    unfold transmit
    dsimp only
    split
    · exact .ended (.refused phase due) none
    · exact .sent phase due line _
  | lost phase due line => exact .ended (.lost phase line) none
  | received phase line first due => exact receive_turns phase line first due
  | @expired x deadline phase silent due =>
    unfold expire
    dsimp only
    split
    · rename_i left
      exact .retried phase left silent due
    · rename_i last
      exact .ended (.timedOut phase last silent due) none

end ModbusMaster.Session
