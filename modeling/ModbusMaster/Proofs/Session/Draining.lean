import ModbusMaster.Proofs.Session.Scene
namespace ModbusMaster.Scene

-- The end of the service, as a registry of sessions goes through it: up to the flag, and from
-- there to the end of each session.

variable {around : Surroundings} {s was : Scene} {key : Peer} {ds : List Deed} {x : Session}

structure Serving (s : Scene) : Prop where
  down : s.up = false
  live : ∀ key x, s.session? key = some x → x.phase ≠ .stopped ∧ x.Wired
  unheard : ∀ key, ∀ y ∈ s.events key, ∀ c h, y.2 = .done c h → c.outcome ≠ .shutdown

theorem serving_opened (around : Surroundings) : Serving (opened around) :=
  ⟨rfl,fun _ _ found => (by cases found),fun _ _ heard => (by cases heard)⟩

theorem serving_perform (around : Surroundings) (serving : Serving s) (d : Deed) : Serving (s.perform around d) := by
  obtain ⟨down,live,unheard⟩ := serving
  refine ⟨(perform_up around s d).trans down,?_,?_⟩
  · intro key x found
    cases perform_alters around s d key with
    | kept _ same => exact live key x (same.symm.trans found)
    | made _ _ new =>
      cases new.symm.trans found
      exact ⟨by simp [Session.create],fun _ _ waits => by cases waits⟩
    | joined _ known _ new =>
      obtain ⟨working,wired⟩ := live key _ known
      cases new.symm.trans found
      exact ⟨working,wired⟩
    | woke known woken _ new =>
      rw [down,Session.wake_down] at woken
      cases new.symm.trans found
      exact ⟨Session.step_live (Session.step_sound woken),Session.wired_step woken⟩
  · intro key y heard
    cases perform_alters around s d key with
    | kept events => exact unheard key y (events ▸ heard)
    | made events => exact unheard key y (events ▸ heard)
    | joined events => exact unheard key y (events ▸ heard)
    | woke _ woken events =>
      rw [down,Session.wake_down] at woken
      rw [events] at heard
      rcases List.mem_append.mp heard with old | new
      · exact unheard key y old
      · obtain ⟨told,among,rfl⟩ := List.mem_map.mp new
        rintro c h rfl
        exact Session.step_outcomes woken c h among

theorem serving_run (around : Surroundings) (serving : Serving s) (ds : List Deed) : Serving (s.run around ds) := by
  induction ds generalizing s with
  | nil => exact serving
  | cons d ds ih => exact ih (serving_perform around serving d)

def told (instant : Nat) (gone : List Entry) (ends : List Nat) : List (Nat × SessionEvent) :=
  (gone.map (Session.failed instant) ++ ends.map SessionEvent.close).map (instant,·)

theorem state_draining (x : Session) (timing : Timing) : x.state timing = .draining ↔ x.phase = .stopped := by
  unfold Session.state
  cases x.phase with
  | pausing => simp only; split <;> simp
  | _ => simp

-- A session that has told its end since the flag came up. Beside all that it held then it may have
-- had entries of callers that were past their look at the flag, each of them once; the entries of
-- the others are in `rest`, or still on the way.
inductive Drained (was s : Scene) (key : Peer) : Prop where
  | intro {x : Session} (instant : Nat) (gone : List Entry) (ends : List Nat) (late rest : List Entry)
      (found : s.session? key = some x) (draining : ∀ timing, x.state timing = .draining) (empty : x.held = [])
      (closed : x.queue.accepting = false)
      (events : s.events key = was.events key ++ told instant gone ends) (failed : gone.Perm (was.held key ++ late))
      (callers : (late ++ rest ++ s.callers).Perm was.callers)

inductive Stands (was s : Scene) (key : Peer) : Prop where
  | waits (late rest : List Entry) (live : ∀ x, s.session? key = some x → x.phase ≠ .stopped ∧ x.Wired)
      (events : s.events key = was.events key) (held : (s.held key).Perm (was.held key ++ late))
      (callers : (late ++ rest ++ s.callers).Perm was.callers)
  | rests (drained : Drained was s key)

theorem held_some (found : s.session? key = some x) : s.held key = x.held := by rw [held,found]; rfl
theorem held_none (absent : s.session? key = none) : s.held key = [] := by rw [held,absent]; rfl

theorem stands_raise (serving : Serving was) (key : Peer) : Stands was was.raise key :=
  .waits [] [] (serving.live key) rfl (.of_eq (List.append_nil _).symm) (List.Perm.refl _)

theorem halt_told (live : x.phase ≠ .stopped) (now : Nat) :
    (x.halt now).2.map (now,·) = told now x.held (x.line.map (·.sent)).toList := by
  rw [Session.halt_live live,told]
  congr 2
  unfold Session.closing
  cases x.line <;> rfl

theorem Drained.perform (drained : Drained was s key) (up : s.up = true) (d : Deed) :
    (s.perform around d).session? key = s.session? key ∧ Drained was (s.perform around d) key := by
  obtain ⟨instant,gone,ends,late,rest,found,draining,empty,closed,events,failed,callers⟩ := drained
  cases perform_alters around s d key with
  | kept unheard same fewer =>
    obtain ⟨left,fewer⟩ := fewer up
    refine ⟨same,instant,gone,ends,late,rest ++ left,same.trans found,draining,empty,closed,unheard.trans events,failed,?_⟩
    have moved := (fewer.append_left (late ++ rest)).trans callers
    rwa [← List.append_assoc,List.append_assoc late] at moved
  | made _ absent => cases found.symm.trans absent
  | joined _ known pushed =>
    cases found.symm.trans known
    simp [PriorityQueue.push?,closed] at pushed
  | woke known woken =>
    cases found.symm.trans known
    have stopped := (state_draining _ s.registry.sessions.timing).mp (draining _)
    rw [Session.wake_stopped stopped] at woken
    cases woken

theorem Stands.perform (stands : Stands was s key) (around : Surroundings) (up : s.up = true) (d : Deed) :
    Stands was (s.perform around d) key := by
  cases stands with
  | rests drained => exact .rests (drained.perform up d).2
  | waits late rest live events held callers =>
    cases perform_alters around s d key with
    | kept unheard same fewer =>
      obtain ⟨left,fewer⟩ := fewer up
      have moved := (fewer.append_left (late ++ rest)).trans callers
      rw [← List.append_assoc,List.append_assoc late] at moved
      refine .waits late (rest ++ left) (fun x found => live x (same.symm.trans found)) (unheard.trans events) ?_ moved
      rwa [Scene.held,same]
    | made unheard absent new fewer =>
      refine .waits late rest ?_ (unheard.trans events) ?_ ((fewer.append_left (late ++ rest)).trans callers)
      · intro x found
        cases new.symm.trans found
        exact ⟨by simp [Session.create],fun _ _ waits => by cases waits⟩
      · rw [held_none absent] at held
        rw [held_some new]
        exact held
    | @joined x q e unheard known pushed new fewer =>
      refine .waits (late ++ [e]) rest ?_ (unheard.trans events) ?_ ?_
      · intro y found
        obtain ⟨working,wired⟩ := live x known
        cases new.symm.trans found
        exact ⟨working,wired⟩
      · rw [held_some known] at held
        rw [held_some new]
        have grown : (Session.held {x with queue:=q}).Perm (e::x.held) :=
          ((PriorityQueue.push?_perm pushed).append_left _).trans List.perm_middle
        rw [← List.append_assoc]
        exact grown.trans ((held.cons e).trans (List.perm_append_singleton e _).symm)
      · refine List.Perm.trans ?_ ((fewer.append_left (late ++ rest)).trans callers)
        rw [List.append_assoc late,List.append_assoc late,List.append_assoc late]
        exact List.perm_middle.symm.append_left late
    | @woke x r known woken heard new same =>
      obtain ⟨working,wired⟩ := live x known
      rw [up,Session.wake_up _ _ _ _ wired working] at woken
      cases woken
      rw [halt_told working,events] at heard
      rw [held_some known] at held
      rw [Session.halt_live working] at new
      exact .rests ⟨s.registry.now,x.held,_,late,rest,new,fun timing => (state_draining _ timing).mpr rfl,rfl,rfl,heard,held,same ▸ callers⟩

theorem Stands.run (stands : Stands was s key) (around : Surroundings) (up : s.up = true) (ds : List Deed) :
    Stands was (s.run around ds) key := by
  induction ds generalizing s with
  | nil => exact stands
  | cons d ds ih => exact ih (stands.perform around up d) ((perform_up around s d).trans up)

theorem Drained.run (drained : Drained was s key) (up : s.up = true) (ds : List Deed) :
    (s.run around ds).session? key = s.session? key ∧ Drained was (s.run around ds) key := by
  induction ds generalizing s with
  | nil => exact ⟨rfl,drained⟩
  | cons d ds ih =>
    obtain ⟨same,still⟩ := drained.perform up d
    obtain ⟨last,drained⟩ := ih still ((perform_up around s d).trans up)
    exact ⟨last.trans same,drained⟩

theorem perform_found (around : Surroundings) (d : Deed) (found : s.session? key = some x) :
    ∃ y, (s.perform around d).session? key = some y := by
  cases perform_alters around s d key with
  | kept _ same => exact ⟨x,same.trans found⟩
  | made _ absent => cases found.symm.trans absent
  | joined _ _ _ new => exact ⟨_,new⟩
  | woke _ _ _ new => exact ⟨_,new⟩

theorem run_found (around : Surroundings) (ds : List Deed) (found : s.session? key = some x) :
    ∃ y, (s.run around ds).session? key = some y := by
  induction ds generalizing s x with
  | nil => exact ⟨x,found⟩
  | cons d ds ih =>
    obtain ⟨y,still⟩ := perform_found around d found
    exact ih still

theorem perform_callers (up : s.up = true) (around : Surroundings) (d : Deed) : ∀ e ∈ (s.perform around d).callers, e ∈ s.callers := by
  intro e member
  cases perform_alters around s d e.device.session with
  | kept _ _ fewer =>
    obtain ⟨gone,fewer⟩ := fewer up
    exact fewer.subset (List.mem_append_right _ member)
  | made _ _ _ callers => exact callers.subset member
  | joined _ _ _ _ callers => exact callers.subset (List.mem_cons_of_mem _ member)
  | woke _ _ _ _ callers => exact callers ▸ member

theorem run_known (up : s.up = true) (found : (s.run around ds).session? key = some x) :
    s.session? key ≠ none ∨ ∃ e ∈ s.callers, e.device.session = key := by
  induction ds generalizing s with
  | nil => exact .inl (by rw [show s.session? key = some x from found]; simp)
  | cons d ds ih =>
    rcases ih ((perform_up around s d).trans up) found with there | ⟨e,member,own⟩
    · cases perform_alters around s d key with
      | kept _ same => exact .inl (same ▸ there)
      | made _ _ _ _ asked => exact .inr asked
      | joined _ known => exact .inl (by simp [known])
      | woke known => exact .inl (by simp [known])
    · exact .inr ⟨e,perform_callers up around d e member,own⟩

theorem Stands.wakes (stands : Stands was s key) (around : Surroundings) (up : s.up = true) (found : s.session? key = some x) :
    Drained was (s.perform around (.wake key)) key := by
  cases stands.perform around up (.wake key) with
  | rests drained => exact drained
  | waits _ _ working =>
    cases stands with
    | rests drained => exact (drained.perform up _).2
    | waits _ _ live =>
      obtain ⟨running,wired⟩ := live x found
      have turn := turn_halt around up found wired running
      exact absurd (Session.halt_phase _ x) (working _ turn.found).1

def transmitted? (y : Nat × SessionEvent) : Option (Nat × Bytes) :=
  match y.2 with
  | .send frame => some (y.1,frame)
  | .sendFailed frame => some (y.1,frame)
  | _ => none

def transmissions (s : Scene) (key : Peer) : List (Nat × Bytes) := (s.events key).filterMap transmitted?

theorem Stands.heard (stands : Stands was s key) : ∃ instant gone ends, s.events key = was.events key ++ told instant gone ends := by
  cases stands with
  | waits _ _ _ events => exact ⟨0,[],[],by rw [events,told,List.map_nil,List.map_nil]; exact (List.append_nil _).symm⟩
  | rests drained =>
    obtain ⟨instant,gone,ends,_,_,_,_,_,_,events⟩ := drained
    exact ⟨instant,gone,ends,events⟩

theorem told_cases {instant : Nat} {gone : List Entry} {ends : List Nat} : ∀ y ∈ told instant gone ends,
    (∃ e ∈ gone, y.2 = Session.failed instant e) ∨ ∃ n, y.2 = .close n := by
  intro y among
  obtain ⟨event,told,rfl⟩ := List.mem_map.mp among
  rcases List.mem_append.mp told with done | closed
  · obtain ⟨e,member,rfl⟩ := List.mem_map.mp done
    exact .inl ⟨e,member,rfl⟩
  · obtain ⟨n,_,rfl⟩ := List.mem_map.mp closed
    exact .inr ⟨n,rfl⟩

theorem told_silent (instant : Nat) (gone : List Entry) (ends : List Nat) :
    (told instant gone ends).filterMap transmitted? = [] := by
  refine List.filterMap_eq_nil_iff.mpr fun y among => ?_
  rcases told_cases y among with ⟨e,_,same⟩ | ⟨n,same⟩
  · rw [transmitted?,same]
    rfl
  · rw [transmitted?,same]

-- What the end of the service is to the sessions: `was` is when the flag comes up, and `after`
-- all that is done from there on.
structure Drains (around : Surroundings) (was : Scene) (after : List Deed) : Prop where
  -- before the flag nothing ends with the shutdown, and no session drains
  unheard : ∀ key, ∀ y ∈ was.events key, ∀ c h, y.2 = .done c h → c.outcome ≠ .shutdown
  working : ∀ key x, was.session? key = some x → x.state around.timing ≠ .draining
  -- from then on nothing is sent
  silent : ∀ key, (was.raise.run around after).transmissions key = was.transmissions key
  -- a session waits with all that it held, or has told its end: all of it has failed
  stands : ∀ key, Stands was (was.raise.run around after) key
  empty : ∀ key, ∀ y ∈ (was.raise.run around after).events key, ∀ c h, y.2 = .done c h → c.outcome = .shutdown → c.data = []
  -- it has told its end, whatever it waited for, as soon as its dispatcher looks up
  drained : ∀ key x, was.session? key = some x → .wake key ∈ after → Drained was (was.raise.run around after) key
  -- and is left as it is from then on
  final : ∀ first second key x, after = first ++ second → (was.raise.run around first).session? key = some x →
    x.state around.timing = .draining → (was.raise.run around after).session? key = some x
  -- who asks then gets the entry back, and there is no session for it
  refused : ∀ first second e, after = first ++ .ask e::second → was.raise.run around (first ++ [.ask e]) =
    {was.raise.run around first with returned:=(was.raise.run around first).returned ++ [e]}
  closed : ∀ usage e, (was.raise.run around after).registry.sessions.enqueue? usage e = none
  known : ∀ key x, (was.raise.run around after).session? key = some x →
    was.session? key ≠ none ∨ ∃ e ∈ was.callers, e.device.session = key

theorem shutdown_drains (around : Surroundings) (before after : List Deed) :
    Drains around ((opened around).run around before) after := by
  have serving := serving_run around (serving_opened around) before
  generalize (opened around).run around before = was at serving
  have up : was.raise.up = true := rfl
  have stands (ds : List Deed) (key : Peer) : Stands was (was.raise.run around ds) key := (stands_raise serving key).run around up ds
  have still (ds : List Deed) : (was.raise.run around ds).up = true := (run_up around was.raise ds).trans up
  refine ⟨serving.unheard,?_,?_,stands after,?_,?_,?_,?_,?_,?_⟩
  · intro key x found
    rw [ne_eq,state_draining]
    exact (serving.live key x found).1
  · intro key
    obtain ⟨instant,gone,ends,heard⟩ := (stands after key).heard
    rw [transmissions,heard,List.filterMap_append,told_silent,List.append_nil]
    rfl
  · intro key y heard c h done ended
    obtain ⟨instant,gone,ends,events⟩ := (stands after key).heard
    rw [events] at heard
    rcases List.mem_append.mp heard with old | new
    · exact absurd ended (serving.unheard key y old c h done)
    · rcases told_cases y new with ⟨e,_,failed⟩ | ⟨n,closed⟩
      · cases done.symm.trans failed
        rfl
      · cases done.symm.trans closed
  · intro key x found woken
    obtain ⟨first,second,rfl⟩ := List.append_of_mem woken
    obtain ⟨y,there⟩ := run_found (s:=was.raise) around first found
    have drained := (stands first key).wakes around (still first) there
    rw [run_append,run_cons]
    exact (drained.run ((perform_up around _ _).trans (still first)) second).2
  · intro first second key x split found finished
    rw [state_draining] at finished
    rw [split,run_append]
    cases stands first key with
    | waits _ _ live => exact absurd finished (live x found).1
    | rests drained => exact (drained.run (still first) second).1.trans found
  · intro first second e split
    rw [run_append,run_cons]
    simp only [perform,still first,if_true]
    rfl
  · intro usage e
    exact SessionSet.enqueue?_refused (.inl (still after))
  · intro key x found
    exact run_known (s:=was.raise) up found

-- An answer that is there when the flag comes up is not looked at any more.
open Registry in
example : let asked := reading answering 1
    let was := (opened calm).run calm [.ask asked,.place 0,.push 0,.wake answering,.wake answering,.wake answering]
    (was.session? answering).map (·.inbox.length) = some 1 ∧ was.transmissions answering = [(0,asked.frame)] ∧
      (was.raise.run calm [.wake answering]).events answering = was.events answering ++ told 0 [asked] [1] :=
  ⟨rfl,rfl,rfl⟩

end ModbusMaster.Scene
