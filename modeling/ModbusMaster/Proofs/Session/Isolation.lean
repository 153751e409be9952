import ModbusMaster.Proofs.Session.Timeline
namespace ModbusMaster

-- The sessions of one set side by side. They share the set, the clock and the end of the
-- service; what one of them does is told by its own cues, whatever the others are asked
-- and however their devices behave.

structure Surroundings where
  timing : Timing
  format : Format
  usage : Peer → Usage
  devices : Peer → Device

def Surroundings.post (around : Surroundings) (key : Peer) : Post :=
  ⟨key,around.usage key,around.timing,around.format,around.devices key⟩

structure Registry where
  now : Nat
  sessions : SessionSet
  log : List (Nat × Peer × SessionEvent)

namespace Registry

def start (timing : Timing) : Registry := ⟨0,SessionSet.start timing,[]⟩

def enqueue (around : Surroundings) (e : Entry) (r : Registry) : Registry :=
  match r.sessions.enqueue? (around.usage e.device.session) e with
  | some sessions => {r with sessions:=sessions}
  | none => r

def serve (around : Surroundings) (key : Peer) (r : Registry) : Registry :=
  let (sessions,out) := r.sessions.runSession (around.devices key) around.format r.now key
  {r with sessions:=sessions,log:=r.log ++ out.map (r.now,key,·)}

def tick (t : Nat) (r : Registry) : Registry := {r with now:=t}

def halt (r : Registry) : Registry := {r with sessions:={r.sessions with halted:=true}}

def events (r : Registry) (key : Peer) : List (Nat × SessionEvent) :=
  r.log.filterMap fun x => if x.2.1 = key then some (x.1,x.2.2) else none

def sent (r : Registry) (key : Peer) : List (Nat × Bytes) :=
  (r.events key).filterMap fun x => match x.2 with
    | .send frame => some (x.1,frame)
    | _ => none

def completed (r : Registry) (key : Peer) : List (Nat × Completion) :=
  (r.events key).filterMap fun x => match x.2 with
    | .done c _ => some (x.1,c)
    | _ => none

def metrics? (r : Registry) (key : Peer) : Option Metrics := (r.sessions.find? key).map (·.metrics)

def life (r : Registry) (key : Peer) : Life := ⟨r.now,r.sessions.halted,r.sessions.find? key,r.events key⟩

def rests (around : Surroundings) (r : Registry) (key : Peer) : Bool := (r.life key).rests (around.post key)

-- The runs in which one session is not kept waiting, with the cues it gets: the clock goes
-- on when that session has done what it can, and no further than its next timer. Nothing
-- is asked of the others: entries for them and turns of theirs come at any time, in any
-- order and number, their timers may be missed, and their devices do as they like.
inductive Runs (around : Surroundings) (key : Peer) : List Cue → Registry → Prop where
  | start : Runs around key [] (start around.timing)
  | asked {cues r late} (runs : Runs around key cues r) (e : Entry) (own : e.device.session = key)
      (order : r.rests around key = late) : Runs around key (cues ++ [⟨r.now,late,some e⟩]) (r.enqueue around e)
  | elsewhere {cues r} (runs : Runs around key cues r) (e : Entry) (foreign : e.device.session ≠ key) :
      Runs around key cues (r.enqueue around e)
  | served {cues r} (runs : Runs around key cues r) (any : Peer) : Runs around key cues (r.serve around any)
  | passed {cues r} (runs : Runs around key cues r) (t : Nat) (rests : r.rests around key = true) (later : r.now ≤ t)
      (early : ∀ u ∈ (r.life key).timer?, t ≤ u) : Runs around key cues (r.tick t)
  | halted {cues r late} (runs : Runs around key cues r) (order : r.rests around key = late) :
      Runs around key (cues ++ [⟨r.now,late,none⟩]) r.halt

variable {around here there : Surroundings} {key other : Peer} {cues : List Cue} {r u : Registry} {e : Entry}

theorem enqueue_timing (around : Surroundings) (e : Entry) (r : Registry) :
    (r.enqueue around e).sessions.timing = r.sessions.timing := by
  unfold enqueue
  split
  · rename_i sessions taken
    obtain ⟨_,_,_,entered⟩ := SessionSet.enqueue?_entered taken
    exact entered.timing
  · rfl

theorem life_asked (around : Surroundings) (e : Entry) (r : Registry) : (r.enqueue around e).life e.device.session =
    (r.life e.device.session).enqueue (around.post e.device.session) e := by
  by_cases halted : r.sessions.halted = true
  · unfold enqueue
    rw [SessionSet.enqueue?_refused (.inl halted)]
    simp [Life.enqueue,life,halted]
  · have serving := Bool.eq_false_iff.mpr halted
    cases pushed : (r.sessions.goal (around.usage e.device.session) e.device.session).queue.push? e with
    | none =>
      unfold enqueue
      rw [SessionSet.enqueue?_refused (.inr pushed)]
      unfold SessionSet.goal at pushed
      simp [Life.enqueue,life,Surroundings.post,pushed]
    | some q =>
      obtain ⟨u,taken,entered⟩ := SessionSet.enqueue?_taken serving pushed
      have same := entered.halted
      have found := entered.found
      unfold enqueue
      rw [taken]
      unfold SessionSet.goal at pushed found
      simp [Life.enqueue,life,Surroundings.post,pushed,found,same,serving,events]

theorem life_elsewhere (around : Surroundings) (r : Registry) (foreign : e.device.session ≠ key) :
    (r.enqueue around e).life key = r.life key := by
  unfold enqueue
  split
  · rename_i sessions taken
    obtain ⟨_,_,_,entered⟩ := SessionSet.enqueue?_entered taken
    simp only [life,events,entered.halted,entered.others key foreign.symm]
  · rfl

theorem serve_timing (around : Surroundings) (key : Peer) (r : Registry) :
    (r.serve around key).sessions.timing = r.sessions.timing := (r.sessions.runSession_rest _ _ _ key).2

theorem serve_events (around : Surroundings) (key other : Peer) (r : Registry) : (r.serve around other).events key =
    r.events key ++ if other = key then
      (r.sessions.runSession (around.devices other) around.format r.now other).2.map (r.now,·) else [] := by
  simp only [serve,events,List.filterMap_append,List.filterMap_map]
  congr 1
  change List.filterMap (fun e => if other = key then some (r.now,e) else none) _ = _
  by_cases same : other = key
  · simp only [if_pos same]
    exact congrFun List.filterMap_eq_map _
  · simp only [if_neg same]
    exact List.filterMap_eq_nil_iff.mpr fun _ _ => rfl

theorem life_served (timing : r.sessions.timing = around.timing) (key : Peer) :
    (r.serve around key).life key = (r.life key).serve (around.post key) := by
  have halted := (r.sessions.runSession_rest (around.devices key) around.format r.now key).1
  have heard := serve_events around key key r
  rw [if_pos rfl] at heard
  unfold Life.serve
  cases found : r.sessions.find? key with
  | none =>
    have absent := SessionSet.runSession_absent (around.devices key) around.format r.now found
    simp [life,absent,found,serve]
  | some s =>
    obtain ⟨_,served,out⟩ := SessionSet.runSession_found (around.devices key) around.format r.now found
    rw [timing] at served out
    rw [out] at heard
    simp only [life,found,heard,Surroundings.post]
    simp [serve,halted,served]

theorem life_unserved (around : Surroundings) (r : Registry) (different : other ≠ key) :
    (r.serve around other).life key = r.life key := by
  have heard := serve_events around key other r
  rw [if_neg different,List.append_nil] at heard
  have rest := r.sessions.runSession_rest (around.devices other) around.format r.now other
  have same := r.sessions.runSession_other (around.devices other) around.format r.now different.symm
  simp only [life,heard]
  simp [serve,rest.1,same]

theorem serve_rests (timing : r.sessions.timing = around.timing) (key : Peer) :
    (r.serve around key).rests around key = true := by
  rw [rests,life_served timing]
  exact Life.serve_rests _ _

theorem Runs.follows (runs : Runs around key cues r) : r.sessions.timing = around.timing ∧
    Life.Follows (around.post key) (Life.told (around.post key) cues) (r.life key) := by
  induction runs with
  | start => exact ⟨rfl,Life.follows_self _ _⟩
  | @asked cues r late runs e own order ih =>
    subst own order
    rw [life_asked]
    exact ⟨(enqueue_timing around e r).trans ih.1,Life.follows_told ih.2 (some e)⟩
  | @elsewhere cues r runs e foreign ih =>
    rw [life_elsewhere around r foreign]
    exact ⟨(enqueue_timing around e r).trans ih.1,ih.2⟩
  | @served cues r runs any ih =>
    refine ⟨(serve_timing around any r).trans ih.1,?_⟩
    by_cases own : any = key
    · subst own
      rw [life_served ih.1]
      exact Life.follows_serve ih.2
    · rw [life_unserved around r own]
      exact ih.2
  | @passed cues r runs t rests later early ih => exact ⟨ih.1,Life.follows_pass ih.2 rests later early⟩
  | @halted cues r late runs order ih =>
    subst order
    exact ⟨ih.1,Life.follows_told ih.2 none⟩

theorem Runs.determined (runs : Runs around key cues r) (rests : r.rests around key = true) :
    r.life key = ((Life.told (around.post key) cues).reach (around.post key) r.now).serve (around.post key) :=
  Life.follows_rests runs.follows.2 rests

theorem Runs.goes_on (runs : Runs around key cues r) {target : Nat} (ahead : r.now ≤ target) :
    ∃ u, Runs around key cues u ∧ u.now = target ∧ u.rests around key = true := by
  induction distance : target-r.now using Nat.strongRecOn generalizing r with
  | _ n ih =>
    have served := runs.served key
    have rests := serve_rests runs.follows.1 key
    rcases Nat.eq_or_lt_of_le ahead with there | before
    · exact ⟨_,served,there,rests⟩
    · have later : r.now < ((r.serve around key).life key).stop target := Life.stop_later rests before
      have within := Life.stop_le target ((r.serve around key).life key)
      exact ih _ (by simp only [tick]; omega)
        (served.passed _ rests (Nat.le_of_lt later) fun u timer => Life.stop_timer timer) within rfl

-- Two runs in which a session gets the same cues, with the same device at its far end. Its
-- frames, its completions and its counts are the same, whatever happens at the others.
theorem sessions_isolated (alike : here.post key = there.post key) (one : Runs here key cues r) (two : Runs there key cues u)
    (now : r.now = u.now) (finished : r.rests here key = true) (finished' : u.rests there key = true) :
    r.sent key = u.sent key ∧ r.completed key = u.completed key ∧ r.metrics? key = u.metrics? key ∧
      r.events key = u.events key ∧ r.sessions.find? key = u.sessions.find? key := by
  have same : r.life key = u.life key := by rw [one.determined finished,two.determined finished',alike,now]
  have events : r.events key = u.events key := congrArg Life.events same
  have session : r.sessions.find? key = u.sessions.find? key := congrArg Life.session same
  refine ⟨?_,?_,?_,events,session⟩
  · rw [sent,events,sent]
  · rw [completed,events,completed]
  · rw [metrics?,session,metrics?]

-- A device that answers, with nobody else asked, or beside one that cannot be connected to
-- and is kept waiting.

def answering : Peer := .tcp ⟨.v4 10 0 0 1,0,502⟩
def failing : Peer := .tcp ⟨.v4 10 0 0 2,0,502⟩

def reading (key : Peer) (id : UInt8) : Entry :=
  ⟨id.toUInt16,id.toUInt16,.readHoldingRegisters,⟨key,1⟩,0,1,0,1,[0,id,0,0,0,6,1,3,0,0,0,1],.caller⟩

def beside (neighbour : Device) : Surroundings :=
  ⟨Timing.standard,.tcp,fun _ => ⟨0,0⟩,fun key => if key = answering then Script.prompt.device .tcp else neighbour⟩

def calm : Surroundings := beside (Script.prompt.device .tcp)
def troubled : Surroundings := beside ⟨fun _ => ⟨0,some (.connection "refused")⟩,fun _ _ => .answered []⟩

def apart : Registry := start Timing.standard |>.tick 7 |>.enqueue calm (reading answering 1) |>.serve calm answering

def together : Registry :=
  start Timing.standard |>.enqueue troubled (reading failing 2) |>.tick 7 |>.enqueue troubled (reading answering 1)
    |>.enqueue troubled (reading failing 3) |>.serve troubled failing |>.serve troubled answering

theorem apart_runs : Runs calm answering [⟨7,true,some (reading answering 1)⟩] apart := by
  have started : Runs calm answering [] (start Timing.standard) := .start
  have waited := started.passed 7 rfl (by decide) (by decide)
  exact (waited.asked (reading answering 1) rfl rfl).served answering

theorem together_runs : Runs troubled answering [⟨7,true,some (reading answering 1)⟩] together := by
  have started : Runs troubled answering [] (start Timing.standard) := .start
  have waited := (started.elsewhere (reading failing 2) (by decide)).passed 7 rfl (by decide) (by decide)
  have asked := (waited.asked (reading answering 1) rfl rfl).elsewhere (reading failing 3) (by decide)
  exact (asked.served failing).served answering

theorem sessions_isolated_beside_failing :
    apart.sent answering = together.sent answering ∧ apart.completed answering = together.completed answering ∧
      apart.metrics? answering = together.metrics? answering ∧ apart.events answering = together.events answering ∧
      apart.sessions.find? answering = together.sessions.find? answering :=
  sessions_isolated (show calm.post answering = troubled.post answering from rfl) apart_runs together_runs rfl
    (serve_rests rfl answering) (serve_rests ((serve_timing troubled failing _).trans rfl) answering)

end Registry
end ModbusMaster
