import ModbusMaster.Proofs.Session.Serving
import ModbusMaster.Proofs.Stack.Run
namespace ModbusMaster

-- The stack with several threads in it: callers that hand over requests, the one that ends
-- the service, and the dispatchers. What each of them does under one lock, or at one look at
-- the flag, is one action; the actions of different threads come in any order.

inductive Stage where
  -- it has got hold of the running stack
  | fetched (t : Target) (r : Request) (byteCount : UInt16) (h : Handler)
  | reserved (e : Entry)
  -- the flag was seen down
  | admitted (e : Entry)
  | placed (e : Entry)
  | accepted (e : Entry)
  | refused (status : CallStatus)
  deriving Repr

-- How far the end of the service has got: `waiting` for the sessions of these keys, and only
-- for them.
inductive Ending where
  | serving
  | taken
  | raised
  | waiting (keys : List Peer)
  | returned (keys : List Peer)
  deriving Repr

structure Floor where
  now : Nat
  engine : Engine
  callers : List Stage
  ending : Ending
  log : List (Nat × Peer × SessionEvent)

inductive Act where
  | fetch (t : Target) (r : Request) (byteCount : UInt16) (h : Handler)
  | reserve (i : Nat)
  | check (i : Nat)
  | place (i : Nat)
  | push (i : Nat)
  | take
  | raise
  | collect
  | finish
  | work (key : Peer)
  | drain (key : Peer)
  | pass (t : Nat)

namespace SessionSet

def place (r : SessionSet) (usage : Usage) (key : Peer) : SessionSet :=
  match r.find? key with
  | some _ => r
  | none => {r with members:=r.members ++ [Session.create key usage]}

def push? (r : SessionSet) (e : Entry) : Option SessionSet :=
  (r.find? e.device.session).bind fun s => (s.queue.push? e).map fun q => r.update {s with queue:=q}

end SessionSet

namespace Floor

def start (format : Format) (slots : Nat) (timing : Timing) : Floor :=
  ⟨0,((Engine.create format slots).configure timing).2.start.2,[],.serving,[]⟩

def put (f : Floor) (i : Nat) (c : Stage) : Floor := {f with callers:=f.callers.set i c}
def hold (f : Floor) (r : SessionSet) : Floor := {f with engine:={f.engine with sessions:=r}}
def keep (f : Floor) (table : TransactionTable) : Floor := {f with engine:={f.engine with table:=table}}

def session? (f : Floor) (key : Peer) : Option Session := f.engine.sessions.find? key

def settle (f : Floor) (key : Peer) (r : Session × List SessionEvent) : Floor :=
  {(f.hold (f.engine.sessions.update r.1)).keep (r.2.foldl Engine.releaseOf f.engine.table) with
    log:=f.log ++ r.2.map (f.now,key,·)}

def reserve (f : Floor) (i : Nat) (t : Target) (r : Request) (byteCount : UInt16) (h : Handler) : Floor :=
  match f.engine.table.reserve? ⟨t.app,r.function,t.device⟩ with
  | none => f.put i (.refused .maxRequestsInFlight)
  | some (id,table) => match Frame.build f.engine.format id t.device.unit r with
    | .error _ => (f.keep (table.release id)).put i (.refused .packetLengthExceeded)
    | .ok frame => (f.keep table).put i (.reserved (Engine.entryOf t id r byteCount frame h))

def refuse (f : Floor) (i : Nat) (e : Entry) : Floor :=
  (f.keep (f.engine.table.release e.id)).put i (.refused .queueSendFailed)

def perform (devices : Peer → Device) (f : Floor) : Act → Option Floor
  | .fetch t r byteCount h =>
    if Limits.unitValid t.device.unit && f.engine.matches? t.device && f.engine.enabled then
      some {f with callers:=f.callers ++ [.fetched t r byteCount h]}
    else none
  | .reserve i => match f.callers[i]? with
    | some (.fetched t r byteCount h) => some (f.reserve i t r byteCount h)
    | _ => none
  | .check i => match f.callers[i]? with
    | some (.reserved e) => some (if f.engine.sessions.halted then f.refuse i e else f.put i (.admitted e))
    | _ => none
  | .place i => match f.callers[i]? with
    | some (.admitted e) =>
      some ((f.hold (f.engine.sessions.place (f.engine.usageOf e.device.session) e.device.session)).put i (.placed e))
    | _ => none
  | .push i => match f.callers[i]? with
    | some (.placed e) => some (match f.engine.sessions.push? e with
      | some r => (f.hold r).put i (.accepted e)
      | none => f.refuse i e)
    | _ => none
  | .take => match f.ending with
    | .serving => some {f with engine:={f.engine with enabled:=false},ending:=.taken}
    | _ => none
  | .raise => match f.ending with
    | .taken => some {f.hold {f.engine.sessions with halted:=true} with ending:=.raised}
    | _ => none
  | .collect => match f.ending with
    | .raised => some {f with ending:=.waiting f.engine.sessions.keys}
    | _ => none
  | .finish => match f.ending with
    | .waiting keys =>
      if keys.all fun k => (f.session? k).all Session.isOver then some {f with ending:=.returned keys}
      else none
    | _ => none
  | .work key => match f.session? key with
    | some s => (s.step (devices key) f.engine.format f.engine.sessions.timing f.now).map (f.settle key)
    | none => none
  | .drain key => match f.session? key with
    | some s => if f.engine.sessions.halted then some (f.settle key (s.halt f.now)) else none
    | none => none
  | .pass t => if f.now ≤ t then some {f with now:=t} else none

def run (devices : Peer → Device) (f : Floor) (acts : List Act) : Option Floor := acts.foldlM (perform devices) f

end Floor

namespace SessionSet
variable {r u : SessionSet} {s t : Session} {e : Entry} {key : Peer}

theorem update_found (found : r.find? key = some s) (same : t.key = s.key) :
    (r.update t).find? key = some t ∧ ∀ k, k ≠ key → (r.update t).find? k = r.find? k := by
  have named := (find?_split found).1
  have kept : t.key = key := same.trans named
  subst kept
  exact ⟨update_self found,fun k other => update_other other⟩

theorem place_known (found : r.find? key = some s) (usage : Usage) : r.place usage key = r := by
  unfold place
  rw [found]

theorem place_new (absent : r.find? key = none) (usage : Usage) :
    (r.place usage key).find? key = some (Session.create key usage) ∧
      ∀ k, k ≠ key → (r.place usage key).find? k = r.find? k := by
  unfold place
  rw [absent]
  unfold find? at *
  refine ⟨?_,fun k other => ?_⟩
  · simp only [List.find?_append,absent,Option.none_or]
    simp [Session.create]
  · simp only [List.find?_append]
    simp [Session.create,other.symm]

theorem place_push (down : r.halted = false) (usage : Usage) (e : Entry) :
    (r.place usage e.device.session).push? e = r.enqueue? usage e := by
  unfold enqueue? push?
  rw [if_neg (by simp [down])]
  cases found : r.find? e.device.session with
  | some s =>
    rw [place_known found,found]
    rfl
  | none =>
    have fresh : ∀ x ∈ r.members, x.key ≠ e.device.session := by simpa [find?] using found
    have others (t : Session) : r.members.map (fun x => if x.key = e.device.session then t else x) = r.members :=
      (List.map_congr_left fun x member => if_neg (fresh x member)).trans (List.map_id _)
    rw [(place_new found usage).1]
    simp only [place,found,update,Option.bind_some]
    congr 1
    funext q
    simp [others,Session.create]

theorem push?_some (pushed : r.push? e = some u) : ∃ s q, r.find? e.device.session = some s ∧ s.queue.push? e = some q ∧
    u = r.update {s with queue:=q} := by
  unfold push? at pushed
  obtain ⟨s,found,rest⟩ := Option.bind_eq_some_iff.mp pushed
  obtain ⟨q,taken,rfl⟩ := Option.map_eq_some_iff.mp rest
  exact ⟨s,q,found,taken,rfl⟩

end SessionSet

namespace Floor
variable {devices : Peer → Device} {f g u v : Floor} {act : Act} {acts : List Act} {keys standing : List Peer}
  {key : Peer} {s : Session}

inductive Performs (devices : Peer → Device) (f : Floor) : Floor → Prop where
  | fetched (c : Stage) (other : ∀ e, c ≠ .admitted e) : Performs devices f {f with callers:=f.callers ++ [c]}
  | moved (table : TransactionTable) (i : Nat) (c : Stage) (other : ∀ e, c ≠ .admitted e) :
      Performs devices f ((f.keep table).put i c)
  | admitted (i : Nat) (e : Entry) (down : f.engine.sessions.halted = false) :
      Performs devices f (f.put i (.admitted e))
  | placed (i : Nat) (e : Entry) (usage : Usage) (admitted : .admitted e ∈ f.callers) :
    Performs devices f ((f.hold (f.engine.sessions.place usage e.device.session)).put i (.placed e))
  | pushed (i : Nat) (e : Entry) (r : SessionSet) (pushed : f.engine.sessions.push? e = some r) :
      Performs devices f ((f.hold r).put i (.accepted e))
  | taken (serving : f.ending = .serving) :
      Performs devices f {f with engine:={f.engine with enabled:=false},ending:=.taken}
  | raised (taken : f.ending = .taken) :
      Performs devices f {f.hold {f.engine.sessions with halted:=true} with ending:=.raised}
  | collected (raised : f.ending = .raised) : Performs devices f {f with ending:=.waiting f.engine.sessions.keys}
  | finished (keys : List Peer) (waiting : f.ending = .waiting keys)
    (gone : ∀ k ∈ keys, ∀ s, f.session? k = some s → s.phase = .stopped) :
      Performs devices f {f with ending:=.returned keys}
  | worked (key : Peer) (s : Session) (r : Session × List SessionEvent) (found : f.session? key = some s)
    (steps : Session.Steps (devices key) f.engine.format f.engine.sessions.timing f.now s r) :
      Performs devices f (f.settle key r)
  | drained (key : Peer) (s : Session) (found : f.session? key = some s) (up : f.engine.sessions.halted = true) :
    Performs devices f (f.settle key (s.halt f.now))
  | passed (t : Nat) : Performs devices f {f with now:=t}

theorem reserve_performs (f : Floor) (i : Nat) (t : Target) (r : Request) (byteCount : UInt16) (h : Handler) :
    Performs devices f (f.reserve i t r byteCount h) := by
  unfold reserve
  split
  · exact .moved f.engine.table i _ (by simp)
  · split
    · exact .moved _ i _ (by simp)
    · exact .moved _ i _ (by simp)

theorem perform_performs (done : f.perform devices act = some u) : Performs devices f u := by
  cases act with
  | fetch t r byteCount h =>
    simp only [perform] at done
    split at done <;> cases done
    exact .fetched _ (by simp)
  | reserve i =>
    simp only [perform] at done
    split at done <;> cases done
    exact reserve_performs f i _ _ _ _
  | check i =>
    simp only [perform] at done
    split at done <;> cases done
    split
    · exact .moved _ i _ (by simp)
    · rename_i down
      exact .admitted i _ (Bool.eq_false_iff.mpr down)
  | place i =>
    simp only [perform] at done
    split at done <;> cases done
    rename_i at_hand
    exact .placed i _ _ (List.mem_of_getElem? at_hand)
  | push i =>
    simp only [perform] at done
    split at done <;> cases done
    split
    · rename_i pushed
      exact .pushed i _ _ pushed
    · exact .moved _ i _ (by simp)
  | take =>
    simp only [perform] at done
    split at done <;> cases done
    rename_i serving
    exact .taken serving
  | raise =>
    simp only [perform] at done
    split at done <;> cases done
    rename_i taken
    exact .raised taken
  | collect =>
    simp only [perform] at done
    split at done <;> cases done
    rename_i raised
    exact .collected raised
  | finish =>
    simp only [perform] at done
    split at done
    · rename_i waiting
      split at done <;> cases done
      rename_i gone
      refine .finished _ waiting fun k member s found => (Session.isOver_iff s).mp ?_
      simpa [found] using List.all_eq_true.mp gone k member
    · cases done
  | work key =>
    simp only [perform] at done
    split at done
    · rename_i found
      obtain ⟨r,stepped,rfl⟩ := Option.map_eq_some_iff.mp done
      exact .worked key _ r found (Session.step_sound stepped)
    · cases done
  | drain key =>
    simp only [perform] at done
    split at done
    · rename_i found
      split at done <;> cases done
      rename_i up
      exact .drained key _ found up
    · cases done
  | pass t =>
    simp only [perform] at done
    split at done <;> cases done
    exact .passed t

-- A caller that nobody comes between makes the whole offer of a request, and the end of the
-- service that nobody comes between halts the engine.
theorem submits_in_a_row {t : Target} {r : Request} {byteCount : UInt16} {h : Handler} {m : Engine}
    (valid : Limits.unitValid t.device.unit = true) (fits : f.engine.matches? t.device = true)
    (enabled : f.engine.enabled = true) (offered : f.engine.offer t r byteCount h = (.queued,m)) :
    ∃ e, f.run devices [.fetch t r byteCount h,.reserve f.callers.length,.check f.callers.length,
        .place f.callers.length,.push f.callers.length] =
      some {f with engine:=m,callers:=f.callers ++ [.accepted e]} := by
  have offers := f.engine.offer_offers t r byteCount h
  rw [offered] at offers
  cases offers with | @queued id table frame _ reserved built taken =>
  obtain ⟨sessions,handed,rfl⟩ := Option.map_eq_some_iff.mp taken
  have down : f.engine.sessions.halted = false :=
    Bool.eq_false_iff.mpr fun up => by simp [SessionSet.enqueue?,up] at handed
  have pushed := (SessionSet.place_push down _ _).trans handed
  refine ⟨Engine.entryOf t id r byteCount frame h,?_⟩
  rw [enabled] at pushed
  simp [run,perform,valid,fits,enabled,reserve,reserved,built,put,keep,hold,down,pushed]

theorem halts_in_a_row (serving : f.ending = .serving) :
    f.run devices [.take,.raise] = some {f with engine:=f.engine.halt,ending:=.raised} := by
  simp [run,perform,serving,Engine.halt,hold]

theorem drain_runs (halted : f.engine.sessions.halted = true) (found : f.session? key = some s) :
    ∃ u, f.perform devices (.drain key) = some u ∧ u.engine = (f.engine.runSession (devices key) f.now key).1 := by
  have there : f.engine.sessions.find? key = some s := found
  refine ⟨f.settle key (s.halt f.now),?_,?_⟩
  · simp [perform,found,halted]
  · simp [settle,hold,keep,Engine.runSession,SessionSet.runSession,there,halted]

theorem run_cons {rest : List Act} (ran : f.run devices (act::rest) = some u) :
    ∃ g, f.perform devices act = some g ∧ g.run devices rest = some u := by
  unfold run at ran
  rw [List.foldlM_cons] at ran
  exact Option.bind_eq_some_iff.mp ran

theorem run_keeps {P : Floor → Prop} (step : ∀ f u, P f → Performs devices f u → P u) (first : P f)
    (ran : f.run devices acts = some u) : P u := by
  induction acts generalizing f with
  | nil =>
    cases ran
    exact first
  | cons act rest ih =>
    obtain ⟨g,done,ran⟩ := run_cons ran
    exact ih (step f g first (perform_performs done)) ran

end Floor
end ModbusMaster
