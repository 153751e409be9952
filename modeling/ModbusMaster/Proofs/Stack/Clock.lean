import ModbusMaster.Proofs.Stack.Station
namespace ModbusMaster

-- The clock of a station: what a run polls and when, and which moves leave time alone.

def Move.calm (poller : Option Poller) : Move → Prop
  | .start => False
  | .poll _ => False
  | .clock _ => False
  | .arrange _ _ _ p => p = poller
  | _ => True

def Move.point? : Move → Option Point
  | .poll p => some p
  | _ => none

theorem Move.calm.silent {poller : Option Poller} {m : Move} (calm : m.calm poller) : m.point? = none := by
  cases m with
  | poll p => exact calm.elim
  | _ => rfl

namespace Station
variable {s t : Station} {h : List Happening} {e : SessionEvent} {ms : List Move}

def polled : Station → List Move → List (Nat × Point)
  | _,[] => []
  | s,m::ms => m.point?.toList.map (s.now,·) ++ (s.move m).polled ms

theorem polled_append (ms ns : List Move) : s.polled (ms ++ ns) = s.polled ms ++ (s.moves ms).polled ns := by
  induction ms generalizing s with
  | nil => rfl
  | cons m ms ih => rw [List.cons_append,polled,ih,polled,List.append_assoc,moves]

theorem polled_silent (silent : ∀ m ∈ ms, m.point? = none) : s.polled ms = [] := by
  induction ms generalizing s with
  | nil => rfl
  | cons m ms ih =>
    rw [polled,silent m List.mem_cons_self,ih fun n later => silent n (List.mem_cons_of_mem _ later)]
    rfl

def dial (s : Station) : Nat × Option Poller := (s.now,s.poller)

theorem Attempts.dial (attempts : Attempts s t h) : t.dial = s.dial := by cases attempts <;> rfl
theorem Observes.dial (observes : Observes s e t h) : t.dial = s.dial := by cases observes <;> rfl
theorem Responds.dial {w : Nat} (responds : Responds s w t h) : t.dial = s.dial := by cases responds <;> rfl

theorem observeAll_dial (key : Peer) (s : Station) (out : List SessionEvent) :
    (out.foldl (observe key) s).dial = s.dial := by
  induction out generalizing s with
  | nil => rfl
  | cons e out ih => exact (ih (observe key s e)).trans (observe_observes key s e).dial

theorem move_dial (sound : s.engine.Sound) {m : Move} (calm : m.calm s.poller) : (s.move m).dial = s.dial := by
  cases m with
  | call t op listening =>
    simp only [move]
    rw [(s.call_rest t op (listener listening)).1]
    rfl
  | handle raw => exact (handle_attempts sound raw).dial
  | serve key => exact observeAll_dial key {s with engine:=(s.engine.runSession (s.devices key) s.now key).1} _
  | respond w =>
    simp only [move]
    split
    · exact (s.runResponder_responds w).dial
    · rfl
  | hire count =>
    simp only [move,spawnResponders]
    rw [wakeAll_same]
    rfl
  | clear => simp only [move]; split <;> rfl
  | drain =>
    simp only [move]
    rw [drain_log]
    rfl
  | arrange agenda intents writers p =>
    cases calm
    rfl
  | start => exact calm.elim
  | poll p => exact calm.elim
  | clock now => exact calm.elim
  | _ => rfl

theorem moves_dial (sound : Sound s) (calm : ∀ m ∈ ms, m.calm s.poller) : (s.moves ms).dial = s.dial := by
  induction ms generalizing s with
  | nil => rfl
  | cons m ms ih =>
    have first := move_dial sound.engine (calm m List.mem_cons_self)
    have poller : (s.move m).poller = s.poller := congrArg Prod.snd first
    refine (ih (move_sound sound m) ?_).trans first
    intro n later
    rw [poller]
    exact calm n (List.mem_cons_of_mem _ later)

theorem poll_moves (sound : Sound s) (points : List Point) :
    (s.moves (points.map .poll)).dial = s.dial ∧ s.polled (points.map .poll) = points.map (s.now,·) := by
  induction points generalizing s with
  | nil => exact ⟨rfl,rfl⟩
  | cons p points ih =>
    have first : (s.move (.poll p)).dial = s.dial := (pollPoint_attempts sound.engine p).dial
    have now : (s.move (.poll p)).now = s.now := congrArg Prod.fst first
    obtain ⟨dial,polled⟩ := ih (move_sound sound (.poll p))
    refine ⟨dial.trans first,?_⟩
    rw [List.map_cons,Station.polled,polled,now]
    rfl

end Station
end ModbusMaster
