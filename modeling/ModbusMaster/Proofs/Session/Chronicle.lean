import ModbusMaster.Proofs.Session.Isolation
import ModbusMaster.Proofs.Session.Turns
namespace ModbusMaster

-- What a session is seen to do, request by request: when the frame of each went out, what
-- came in for it, and how it ended. The session itself keeps none of this.

structure Sending where
  time : Nat
  frame : Bytes
  taken : Bool
  -- what is on its way in once the frame is out, and when it is there
  inbox : List (Nat × Except Fault Bytes)
  -- when the wait for the answer was over, unless the service was ended meanwhile
  closed : Option Nat

structure Service where
  entry : Entry
  sendings : List Sending
  time : Nat
  outcome : Outcome

structure Watch where
  now : Nat
  session : Session
  past : List Service
  sendings : List Sending
  log : List (Nat × SessionEvent)

namespace Sending

def close (now : Nat) (x : Sending) : Sending := {x with closed:=x.closed.or (some now)}

def ofEvent? (now : Nat) (inbox : List (Nat × Except Fault Bytes)) : SessionEvent → Option Sending
  | .send frame => some ⟨now,frame,true,inbox,none⟩
  | .sendFailed frame => some ⟨now,frame,false,[],none⟩
  | _ => none

-- The frame was out for the whole time that an answer may take, and what arrived in it was
-- not the answer, nor a failure of the line.
def Lapsed (p : Post) (e : Entry) (x : Sending) : Prop :=
  x.taken = true ∧ ∃ closed front back, x.closed = some closed ∧ x.time+p.timing.responseUs ≤ closed ∧
    x.inbox = front ++ back ∧ (∀ a ∈ front, a.1 ≤ closed ∧ Session.Stray p.format e a.2) ∧
      ∀ a ∈ back.head?, closed < a.1

end Sending

namespace Watch

def closes (s t : Session) : Bool :=
  match s.phase,t.phase with
  | .awaiting .., .awaiting .. => false
  | .awaiting .., .stopped => false
  | .awaiting .., _ => true
  | _,_ => false

def overheard (r : Session × List SessionEvent) (w : Watch) : List Sending :=
  (if closes w.session r.1 then w.sendings.map (·.close w.now) else w.sendings) ++
    r.2.filterMap (Sending.ofEvent? w.now r.1.inbox)

def step (r : Session × List SessionEvent) (w : Watch) : Watch :=
  let log := w.log ++ r.2.map (w.now,·)
  match w.session.current?,endings r.2 with
  | some e,(c,_)::_ => ⟨w.now,r.1,w.past ++ [⟨e,w.overheard r,w.now,c.outcome⟩],[],log⟩
  | _,_ => ⟨w.now,r.1,w.past,w.overheard r,log⟩

end Watch

-- A session through any time: entries come in, the clock goes on, the session does some of
-- what it can at an instant, or its service ends.
inductive Watched (p : Post) : Watch → Prop where
  | born (now : Nat) : Watched p ⟨now,Session.create p.key p.usage,[],[],[]⟩
  | queued {w e q} (watched : Watched p w) (pushed : w.session.queue.push? e = some q) :
    Watched p {w with session:={w.session with queue:=q}}
  | passed {w t} (watched : Watched p w) (later : w.now ≤ t) : Watched p {w with now:=t}
  | stepped {w r} (watched : Watched p w) (steps : Session.Steps p.device p.format p.timing w.now w.session r) :
    Watched p (w.step r)
  | halted {w} (watched : Watched p w) : Watched p (w.step (w.session.halt w.now))

namespace Watch
variable {p : Post} {w : Watch} {x : Attempt} {e : Entry} {ready deadline : Nat} {r : Session × List SessionEvent}

theorem step_going (quiet : endings r.2 = []) :
    w.step r = ⟨w.now,r.1,w.past,w.overheard r,w.log ++ r.2.map (w.now,·)⟩ := by
  unfold step
  rw [quiet]
  cases w.session.current? <;> rfl

theorem step_ending {c : Completion} {h : Handler} {more : List (Completion × Handler)}
    (serving : w.session.current? = some e)
    (told : endings r.2 = (c,h)::more) : w.step r =
      ⟨w.now,r.1,w.past ++ [⟨e,w.overheard r,w.now,c.outcome⟩],[],w.log ++ r.2.map (w.now,·)⟩ := by
  unfold step
  rw [serving,told]

theorem step_idle (idle : w.session.current? = none) :
    w.step r = ⟨w.now,r.1,w.past,w.overheard r,w.log ++ r.2.map (w.now,·)⟩ := by
  unfold step
  rw [idle]

@[simp] theorem step_now (r : Session × List SessionEvent) (w : Watch) : (w.step r).now = w.now := by
  unfold step
  split <;> rfl

@[simp] theorem step_session (r : Session × List SessionEvent) (w : Watch) : (w.step r).session = r.1 := by
  unfold step
  split <;> rfl

@[simp] theorem step_log (r : Session × List SessionEvent) (w : Watch) :
    (w.step r).log = w.log ++ r.2.map (w.now,·) := by
  unfold step
  split <;> rfl

theorem step_books (r : Session × List SessionEvent) (w : Watch) :
    ((w.step r).past = w.past ∧ (w.step r).sendings = w.overheard r) ∨
      ∃ e outcome, (w.step r).past = w.past ++ [⟨e,w.overheard r,w.now,outcome⟩] ∧ (w.step r).sendings = [] := by
  unfold step
  split
  · exact .inr ⟨_,_,rfl,rfl⟩
  · exact .inl ⟨rfl,rfl⟩

theorem watched_run {now : Nat} {s : Session} (watched : Watched p w) (at_now : w.now = now) (same : w.session = s) :
    ∃ u, Watched p u ∧ u.now = now ∧ u.session = (s.run p.device p.format p.timing now).1 ∧
      u.log = w.log ++ (s.run p.device p.format p.timing now).2.map (now,·) := by
  fun_induction Session.run p.device p.format p.timing now s generalizing w with
  | case1 s quiet => exact ⟨w,watched,at_now,same,by simp⟩
  | case2 s t out stepped u more rest ih =>
    subst at_now same
    obtain ⟨v,watched,when,session,log⟩ := ih (watched.stepped (Session.step_sound stepped)) (step_now _ w)
      (step_session _ w)
    rw [rest] at session log
    refine ⟨v,watched,when,session,?_⟩
    rw [log,step_log,List.append_assoc,List.map_append]

end Watch

def Life.Kept (p : Post) (l : Life) : Prop :=
  match l.session with
  | none => l.events = []
  | some s => ∃ w, Watched p w ∧ w.now = l.now ∧ w.session = s ∧ w.log = l.events

namespace Life
variable {p : Post} {l : Life} {e : Entry} {t : Nat}

theorem kept_enqueue (kept : l.Kept p) (e : Entry) : (l.enqueue p e).Kept p := by
  obtain ⟨now,halted,session,events⟩ := l
  unfold enqueue
  dsimp only
  split
  · exact kept
  · split
    · rename_i q pushed
      cases session with
      | none => exact ⟨_,(Watched.born now).queued pushed,rfl,rfl,Eq.symm kept⟩
      | some s =>
        obtain ⟨w,watched,when,rfl,log⟩ := kept
        exact ⟨_,watched.queued pushed,when,rfl,log⟩
    · exact kept

theorem kept_serve (kept : l.Kept p) : (l.serve p).Kept p := by
  obtain ⟨now,halted,session,events⟩ := l
  cases session with
  | none => exact kept
  | some s =>
    obtain ⟨w,watched,rfl,rfl,rfl⟩ := kept
    cases halted with
    | true => exact ⟨_,watched.halted,Watch.step_now _ w,Watch.step_session _ w,Watch.step_log _ w⟩
    | false => exact Watch.watched_run watched rfl rfl

theorem kept_later (kept : l.Kept p) (later : l.now ≤ t) : ({l with now:=t} : Life).Kept p := by
  obtain ⟨now,halted,session,events⟩ := l
  cases session with
  | none => exact kept
  | some s =>
    obtain ⟨w,watched,rfl,session,log⟩ := kept
    exact ⟨_,watched.passed later,rfl,session,log⟩

end Life

namespace Registry
variable {around : Surroundings} {r : Registry} {key : Peer} {s : Session}

inductive Reached (around : Surroundings) : Registry → Prop where
  | start : Reached around (start around.timing)
  | asked {u} (reached : Reached around u) (e : Entry) : Reached around (u.enqueue around e)
  | served {u} (reached : Reached around u) (any : Peer) : Reached around (u.serve around any)
  | passed {u t} (reached : Reached around u) (later : u.now ≤ t) : Reached around (u.tick t)
  | halted {u} (reached : Reached around u) : Reached around u.halt

theorem Reached.kept (reached : Reached around r) (key : Peer) : r.sessions.timing = around.timing ∧
    (r.life key).Kept (around.post key) := by
  induction reached with
  | start => exact ⟨rfl,rfl⟩
  | @asked u reached e ih =>
    refine ⟨(enqueue_timing around e u).trans ih.1,?_⟩
    by_cases own : e.device.session = key
    · subst own
      rw [life_asked]
      exact Life.kept_enqueue ih.2 e
    · rw [life_elsewhere around u own]
      exact ih.2
  | @served u reached any ih =>
    refine ⟨(serve_timing around any u).trans ih.1,?_⟩
    by_cases own : any = key
    · subst own
      rw [life_served ih.1]
      exact Life.kept_serve ih.2
    · rw [life_unserved around u own]
      exact ih.2
  | passed reached later ih => exact ⟨ih.1,Life.kept_later ih.2 later⟩
  | halted reached ih => exact ih

theorem Reached.watched (reached : Reached around r) (found : r.sessions.find? key = some s) :
    ∃ w, Watched (around.post key) w ∧ w.now = r.now ∧ w.session = s ∧ w.log = r.events key := by
  have kept := (reached.kept key).2
  unfold Life.Kept life at kept
  rw [found] at kept
  exact kept

end Registry
end ModbusMaster
