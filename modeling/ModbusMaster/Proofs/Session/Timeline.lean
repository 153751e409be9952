import ModbusMaster.Proofs.Session.Serving
import ModbusMaster.Proofs.Session.Steps
namespace ModbusMaster

-- One session through time. What it comes to is told by what reaches it: the entries for
-- it, the end of the service, and the clock.

namespace Session
variable {device : Device} {format : Format} {timing : Timing} {halted : Bool} {now t u : Nat} {s : Session}

def settled (device : Device) (format : Format) (timing : Timing) (halted : Bool) (now : Nat) (s : Session) : Bool :=
  if halted then s.phase matches .stopped else (s.step device format timing now).isNone

theorem settled_halted : s.settled device format timing true now = true ↔ s.phase = .stopped := by
  unfold settled
  cases s.phase <;> simp

theorem settled_serving : s.settled device format timing false now = true ↔ s.step device format timing now = none :=
  Option.isNone_iff_eq_none

theorem run_rests (device : Device) (format : Format) (timing : Timing) (now : Nat) (s : Session) :
    (s.run device format timing now).1.step device format timing now = none := by
  fun_induction run device format timing now s with
  | case1 s quiet => exact quiet
  | case2 s t out stepped t' more rest ih =>
    rw [rest] at ih
    exact ih

theorem serve_settled (device : Device) (format : Format) (timing : Timing) (halted : Bool) (now : Nat) (s : Session) :
    (s.serve device format timing halted now).1.settled device format timing halted now = true := by
  cases halted with
  | true => exact settled_halted.mpr (halt_phase now s)
  | false => exact settled_serving.mpr (run_rests device format timing now s)

theorem settled_serve (settled : s.settled device format timing halted now = true) :
    s.serve device format timing halted now = (s,[]) := by
  cases halted with
  | true => exact halt_stopped (settled_halted.mp settled)
  | false => exact run_quiet (settled_serving.mp settled)

theorem quiet_timer (quiet : s.step device format timing now = none) (timer : s.timer? = some u) : now < u := by
  refine Nat.lt_of_not_le fun up => ?_
  suffices ∃ r, Steps device format timing now s r by
    obtain ⟨r,steps⟩ := this
    rw [step_complete steps] at quiet
    cases quiet
  unfold timer? at timer
  split at timer
  · cases timer
  · rename_i phase
    cases timer
    exact ⟨_,.dialed phase up⟩
  · rename_i phase
    cases timer
    cases line : s.line with
    | none => exact ⟨_,.lost phase up line⟩
    | some l => exact ⟨_,.sent phase up line⟩
  · rename_i x deadline phase
    cases line : s.line with
    | none => exact ⟨_,.expired phase (fun _ _ _ arrived => by simp [inbox,line] at arrived) (.inr line)⟩
    | some l =>
      have arrivals : s.inbox = l.inbox := by simp [inbox,line]
      rw [arrivals] at timer
      cases first : l.inbox with
      | nil =>
        rw [first] at timer
        cases timer
        exact ⟨_,.expired phase (silent_empty line first) (.inl up)⟩
      | cons arrival rest =>
        rw [first] at timer
        cases timer
        by_cases due : arrival.1 ≤ now
        · exact ⟨_,.received phase line first due⟩
        · exact ⟨_,.expired phase (silent_later line first (by omega)) (.inl (by omega))⟩
  · cases timer

theorem quiet_later (quiet : s.step device format timing now = none) (early : ∀ u, s.timer? = some u → t < u) :
    s.step device format timing t = none := by
  have never {r : Session × List SessionEvent} (steps : Steps device format timing now s r) : False := by
    rw [step_complete steps] at quiet
    cases quiet
  have unreached {u : Nat} (timer : s.timer? = some u) (up : u ≤ t) : False := by
    have := early u timer
    omega
  cases stepped : s.step device format timing t with
  | none => rfl
  | some r =>
    cases step_sound stepped with
    | taken phase popped => exact (never (.taken phase popped)).elim
    | dialed phase due => exact (unreached (by simp [timer?,phase]) due).elim
    | sent phase due line => exact (unreached (by simp [timer?,phase]) due).elim
    | lost phase due line => exact (unreached (by simp [timer?,phase]) due).elim
    | @received x deadline l ready item rest phase line first due =>
      have timer : s.timer? = some (min ready deadline) := by simp [timer?,phase,inbox,line,first]
      exact (unreached timer (by omega)).elim
    | @expired x deadline phase silent due =>
      cases line : s.line with
      | none => exact (never (.expired phase (fun _ _ _ arrived => by simp [inbox,line] at arrived) (.inr line))).elim
      | some l =>
        have due := due.resolve_right (by simp [line])
        cases first : l.inbox with
        | nil => exact (unreached (by simp [timer?,phase,inbox,line,first]) due).elim
        | cons arrival rest =>
          have timer : s.timer? = some (min arrival.1 deadline) := by simp [timer?,phase,inbox,line,first]
          exact (unreached timer (by omega)).elim

theorem settled_timer (settled : s.settled device format timing halted now = true) (timer : s.timer? = some u) : now < u := by
  cases halted with
  | true =>
    rw [timer?,settled_halted.mp settled] at timer
    cases timer
  | false => exact quiet_timer (settled_serving.mp settled) timer

theorem settled_later (settled : s.settled device format timing halted now = true)
    (early : ∀ u, s.timer? = some u → t < u) : s.settled device format timing halted t = true := by
  cases halted with
  | true => exact settled_halted.mpr (settled_halted.mp settled)
  | false => exact settled_serving.mpr (quiet_later (settled_serving.mp settled) early)

end Session

structure Post where
  key : Peer
  usage : Usage
  timing : Timing
  format : Format
  device : Device

structure Life where
  now : Nat
  halted : Bool
  session : Option Session
  events : List (Nat × SessionEvent)

-- What reaches a session from outside, and when: an entry, or else the end of the service.
-- An instant has two moments for a session, before and after it has done what there is to
-- do for it then. `late` tells them apart, since their order decides what is taken up next.
structure Cue where
  time : Nat
  late : Bool
  entry : Option Entry

namespace Life
variable {p : Post} {l c : Life} {t target : Nat}

def start : Life := ⟨0,false,none,[]⟩

def rests (p : Post) (l : Life) : Bool :=
  match l.session with
  | none => true
  | some s => s.settled p.device p.format p.timing l.halted l.now

def timer? (l : Life) : Option Nat := l.session.bind Session.timer?

def serve (p : Post) (l : Life) : Life :=
  match l.session with
  | none => l
  | some s =>
    let (s,out) := s.serve p.device p.format p.timing l.halted l.now
    {l with session:=some s,events:=l.events ++ out.map (l.now,·)}

def enqueue (p : Post) (e : Entry) (l : Life) : Life :=
  let s := l.session.getD (Session.create p.key p.usage)
  if l.halted then l else
  match s.queue.push? e with
  | some q => {l with session:=some {s with queue:=q}}
  | none => l

def accept (p : Post) (l : Life) : Option Entry → Life
  | some e => l.enqueue p e
  | none => {l with halted:=true}

def stop (target : Nat) (l : Life) : Nat :=
  match l.timer? with
  | some u => min u target
  | none => target

-- Lives up to the target, from timer to timer. What there is to do at the target itself
-- is left.
def reach (p : Post) (target : Nat) (l : Life) : Life :=
  if _h : l.now < target ∧ l.now < (l.serve p).stop target then
    reach p target {l.serve p with now:=(l.serve p).stop target}
  else l
  termination_by target-l.now

def obey (p : Post) (l : Life) (c : Cue) : Life :=
  let l := l.reach p c.time
  (if c.late then l.serve p else l).accept p c.entry

def told (p : Post) (cues : List Cue) : Life := cues.foldl (obey p) start

theorem serve_now (p : Post) (l : Life) : (l.serve p).now = l.now := by
  unfold serve
  split <;> rfl

theorem serve_rests (p : Post) (l : Life) : (l.serve p).rests p = true := by
  unfold serve
  split
  · rename_i absent
    simp [rests,absent]
  · exact Session.serve_settled _ _ _ _ _ _

theorem rests_serve (rests : l.rests p = true) : l.serve p = l := by
  obtain ⟨now,halted,session,events⟩ := l
  cases session with
  | none => rfl
  | some s => simp [serve,Session.settled_serve rests]

theorem rests_timer (rests : l.rests p = true) {u : Nat} (timer : l.timer? = some u) : l.now < u := by
  obtain ⟨now,halted,session,events⟩ := l
  cases session with
  | none => cases timer
  | some s => exact Session.settled_timer rests timer

theorem rests_later (rests : l.rests p = true) (early : ∀ u, l.timer? = some u → t < u) :
    ({l with now:=t} : Life).rests p = true := by
  obtain ⟨now,halted,session,events⟩ := l
  cases session with
  | none => rfl
  | some s => exact Session.settled_later rests early

theorem stop_le (target : Nat) (l : Life) : l.stop target ≤ target := by
  unfold stop
  split
  · exact Nat.min_le_right _ _
  · exact Nat.le_refl _

theorem stop_timer {u : Nat} (timer : l.timer? = some u) : l.stop target ≤ u := by
  simp only [stop,timer]
  exact Nat.min_le_left _ _

theorem stop_later (rests : l.rests p = true) (before : l.now < target) : l.now < l.stop target := by
  unfold stop
  split
  · rename_i timer
    exact Nat.lt_min.mpr ⟨rests_timer rests timer,before⟩
  · exact before

theorem reach_done (there : target ≤ l.now) : l.reach p target = l := by
  rw [reach,dif_neg]
  omega

theorem reach_step (before : l.now < target) :
    l.reach p target = ({l.serve p with now:=(l.serve p).stop target} : Life).reach p target := by
  rw [reach,dif_pos]
  have later := stop_later (serve_rests p l) (by rwa [serve_now])
  rw [serve_now] at later
  exact ⟨before,later⟩

theorem reach_serve (before : l.now < target) : (l.serve p).reach p target = l.reach p target := by
  rw [reach_step before,reach_step (by rwa [serve_now]),rests_serve (serve_rests p l)]

theorem reach_rests (rests : l.rests p = true) (later : l.now ≤ t) (early : t ≤ l.stop target) :
    ({l with now:=t} : Life).reach p target = l.reach p target := by
  have within := stop_le target l
  rcases Nat.eq_or_lt_of_le later with rfl | later
  · rfl
  have from_start : l.reach p target = ({l with now:=l.stop target} : Life).reach p target := by
    rw [reach_step (by omega),rests_serve rests]
  rw [from_start]
  rcases Nat.eq_or_lt_of_le early with rfl | early
  · rfl
  have still : ({l with now:=t} : Life).rests p = true := rests_later rests fun u timer =>
    Nat.lt_of_lt_of_le early (stop_timer timer)
  rw [reach_step (show ({l with now:=t} : Life).now < target by dsimp only; omega),rests_serve still]
  rfl

theorem reach_now (before : l.now ≤ target) : (l.reach p target).now = target := by
  induction distance : target-l.now using Nat.strongRecOn generalizing l with
  | _ n ih =>
    rcases Nat.eq_or_lt_of_le before with there | before
    · rw [reach_done (Nat.le_of_eq there.symm),there]
    · have later := stop_later (serve_rests p l) (show (l.serve p).now < target by rwa [serve_now])
      rw [serve_now] at later
      rw [reach_step before]
      exact ih _ (by dsimp only; omega) (stop_le target _) rfl

theorem reach_reach {near : Nat} (within : near ≤ target) : (l.reach p near).reach p target = l.reach p target := by
  induction distance : near-l.now using Nat.strongRecOn generalizing l with
  | _ n ih =>
    by_cases before : l.now < near
    · have later := stop_later (serve_rests p l) (show (l.serve p).now < near by rwa [serve_now])
      rw [reach_step before,ih _ (by dsimp only; rw [serve_now] at later; omega) rfl,
        reach_rests (serve_rests p l) (Nat.le_of_lt later) ?_,reach_serve (by omega)]
      have nearest := stop_le near (l.serve p)
      cases timer : (l.serve p).timer? with
      | none => simp only [stop,timer]; omega
      | some u => simp only [stop,timer]; omega
    · rw [reach_done (Nat.le_of_not_lt before)]

-- A life that got to where it is from an earlier one without a cue: as far as its time,
-- and with or without what there is to do then.
def Follows (p : Post) (c l : Life) : Prop :=
  c.now ≤ l.now ∧ (l = c.reach p l.now ∨ l = (c.reach p l.now).serve p)

theorem follows_self (p : Post) (l : Life) : Follows p l l := ⟨Nat.le_refl _,.inl (reach_done (Nat.le_refl _)).symm⟩

theorem follows_rests (follows : Follows p c l) (rests : l.rests p = true) : l = (c.reach p l.now).serve p := by
  rcases follows.2 with same | same
  · rw [← same,rests_serve rests]
  · exact same

theorem follows_serve (follows : Follows p c l) : Follows p c (l.serve p) := by
  unfold Follows
  rw [serve_now]
  refine ⟨follows.1,.inr ?_⟩
  rcases follows.2 with same | same
  · rw [← same]
  · exact (rests_serve (same ▸ serve_rests p _)).trans same

theorem follows_pass (follows : Follows p c l) (rests : l.rests p = true) (later : l.now ≤ t)
    (early : ∀ u ∈ l.timer?, t ≤ u) : Follows p c {l with now:=t} := by
  refine ⟨Nat.le_trans follows.1 later,?_⟩
  rcases Nat.eq_or_lt_of_le later with rfl | later
  · exact follows.2
  left
  have ready : t ≤ l.stop t := by
    unfold stop
    split
    · rename_i timer
      exact Nat.le_min.mpr ⟨early _ timer,Nat.le_refl t⟩
    · exact Nat.le_refl t
  have caught := follows_rests follows rests
  have up : (c.reach p l.now).now = l.now := reach_now follows.1
  calc ({l with now:=t} : Life) = ({l with now:=t} : Life).reach p t := (reach_done (Nat.le_refl t)).symm
    _ = l.reach p t := reach_rests rests (Nat.le_of_lt later) ready
    _ = ((c.reach p l.now).serve p).reach p t := by rw [← caught]
    _ = (c.reach p l.now).reach p t := reach_serve (by rwa [up])
    _ = c.reach p t := reach_reach (Nat.le_of_lt later)

theorem obey_accept (follows : Follows p c l) (what : Option Entry) :
    c.obey p ⟨l.now,l.rests p,what⟩ = l.accept p what := by
  unfold obey
  dsimp only
  split
  · rename_i rests
    rw [← follows_rests follows rests]
  · rename_i busy
    rcases follows.2 with same | same
    · rw [← same]
    · rw [same] at busy
      exact (busy (serve_rests p _)).elim

theorem told_next (p : Post) (cues : List Cue) (c : Cue) : told p (cues ++ [c]) = (told p cues).obey p c := by simp [told]

theorem follows_told {cues : List Cue} (follows : Follows p (told p cues) l) (what : Option Entry) :
    Follows p (told p (cues ++ [⟨l.now,l.rests p,what⟩])) (l.accept p what) := by
  rw [told_next,obey_accept follows]
  exact follows_self p _

end Life
end ModbusMaster
