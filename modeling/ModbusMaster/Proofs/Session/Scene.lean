import Mathlib.Data.List.Perm.Basic
import ModbusMaster.Proofs.Session.Isolation
import ModbusMaster.Proofs.Session.Waits
import ModbusMaster.Proofs.Stack.Interleaving
namespace ModbusMaster

-- A registry of sessions with those who use it. Dispatchers go from wait to wait, and callers
-- hand their entries over in three steps, in any order.

-- Beside the registry the callers that have seen the flag down, those whose session is there,
-- and the entries that were handed back.
structure Scene where
  registry : Registry
  admitted : List Entry
  placed : List Entry
  returned : List Entry

namespace Scene

inductive Deed where
  -- a caller looks at the flag, finds or makes the session, and puts its entry in the queue
  | ask (e : Entry)
  | place (i : Nat)
  | push (i : Nat)
  | wake (key : Peer)
  | pass (us : Nat)

def up (s : Scene) : Bool := s.registry.sessions.halted
def session? (s : Scene) (key : Peer) : Option Session := s.registry.sessions.find? key
def events (s : Scene) (key : Peer) : List (Nat × SessionEvent) := s.registry.events key
def callers (s : Scene) : List Entry := s.admitted ++ s.placed

def held (s : Scene) (key : Peer) : List Entry := (s.session? key).elim [] Session.held

def opened (around : Surroundings) : Scene := ⟨Registry.start around.timing,[],[],[]⟩
def hold (s : Scene) (r : SessionSet) : Scene := {s with registry:={s.registry with sessions:=r}}

def settle (s : Scene) (key : Peer) (r : Session × List SessionEvent) : Scene :=
  {s with registry:=⟨s.registry.now,s.registry.sessions.update r.1,s.registry.log ++ r.2.map (s.registry.now,key,·)⟩}

def perform (around : Surroundings) (s : Scene) : Deed → Scene
  | .ask e => if s.up then {s with returned:=s.returned ++ [e]} else {s with admitted:=s.admitted ++ [e]}
  | .place i => match s.admitted[i]? with
    | some e => {s.hold (s.registry.sessions.place (around.usage e.device.session) e.device.session) with
        admitted:=s.admitted.eraseIdx i,placed:=s.placed ++ [e]}
    | none => s
  | .push i => match s.placed[i]? with
    | some e => match s.registry.sessions.push? e with
      | some r => {s.hold r with placed:=s.placed.eraseIdx i}
      | none => {s with placed:=s.placed.eraseIdx i,returned:=s.returned ++ [e]}
    | none => s
  | .wake key => match s.session? key with
    | some x => match x.wake (around.devices key) around.format s.registry.sessions.timing s.up s.registry.now with
      | some r => s.settle key r
      | none => s
    | none => s
  | .pass us => {s with registry:=s.registry.tick (s.registry.now+us)}

def run (around : Surroundings) (s : Scene) (ds : List Deed) : Scene := ds.foldl (perform around) s
def raise (s : Scene) : Scene := {s with registry:=s.registry.halt}

variable {around : Surroundings} {s t : Scene} {key : Peer} {e : Entry} {x : Session} {i : Nat}

theorem run_cons (s : Scene) (d : Deed) (ds : List Deed) : s.run around (d::ds) = (s.perform around d).run around ds := rfl

theorem run_append (s : Scene) (first second : List Deed) :
    s.run around (first ++ second) = (s.run around first).run around second := List.foldl_append

theorem events_settle (s : Scene) (key other : Peer) (r : Session × List SessionEvent) : (s.settle key r).events other =
    s.events other ++ if key = other then r.2.map (s.registry.now,·) else [] := by
  simp only [events,settle,Registry.events,List.filterMap_append,List.filterMap_map]
  split
  · rename_i same
    congr 1
    simp [same]
  · rename_i different
    simp [different]

structure Turn (s t : Scene) (key : Peer) (r : Session × List SessionEvent) : Prop where
  clock : t.registry.now = s.registry.now
  up : t.up = s.up
  found : t.session? key = some r.1
  events : t.events key = s.events key ++ r.2.map (s.registry.now,·)
  others : ∀ k, key ≠ k → t.registry.life k = s.registry.life k

theorem Turn.same {r : Session × List SessionEvent} {u : Scene} (one : Turn s t key r) (two : Turn s u key r) (k : Peer) :
    t.registry.life k = u.registry.life k := by
  by_cases own : key = k
  · subst own
    have clock := one.clock.trans two.clock.symm
    have up : t.registry.sessions.halted = u.registry.sessions.halted := one.up.trans two.up.symm
    have found : t.registry.sessions.find? key = u.registry.sessions.find? key := one.found.trans two.found.symm
    have events : t.registry.events key = u.registry.events key := one.events.trans two.events.symm
    rw [Registry.life,Registry.life,clock,up,found,events]
  · exact (one.others k own).trans (two.others k own).symm

theorem turn_settle {r : Session × List SessionEvent} (found : s.session? key = some x) (same : r.1.key = x.key) :
    Turn s (s.settle key r) key r := by
  obtain ⟨new,others⟩ := SessionSet.update_found found same
  have heard (k : Peer) := events_settle s key k r
  have own := heard key
  rw [if_pos rfl] at own
  refine ⟨rfl,rfl,new,own,fun k different => ?_⟩
  have still := heard k
  rw [if_neg different,List.append_nil] at still
  have kept := others k different.symm
  simp only [events,settle] at still
  simp only [Registry.life,settle,still,kept]
  rfl

inductive Alters (around : Surroundings) (s t : Scene) (key : Peer) : Prop where
  | kept (events : t.events key = s.events key) (same : t.session? key = s.session? key)
      (fewer : s.up = true → ∃ gone, (gone ++ t.callers).Perm s.callers)
  | made (events : t.events key = s.events key) (absent : s.session? key = none)
      (new : t.session? key = some (Session.create key (around.usage key))) (callers : t.callers.Perm s.callers)
      (asked : ∃ e ∈ s.callers, e.device.session = key)
  | joined {x q e} (events : t.events key = s.events key) (found : s.session? key = some x) (pushed : x.queue.push? e = some q)
      (new : t.session? key = some {x with queue:=q}) (callers : (e::t.callers).Perm s.callers)
  | woke {x r} (found : s.session? key = some x)
      (woken : x.wake (around.devices key) around.format s.registry.sessions.timing s.up s.registry.now = some r)
      (events : t.events key = s.events key ++ r.2.map (s.registry.now,·)) (new : t.session? key = some r.1)
      (callers : t.callers = s.callers)

theorem alters_self (around : Surroundings) (s : Scene) (key : Peer) : Alters around s s key :=
  .kept rfl rfl fun _ => ⟨[],List.Perm.refl _⟩

theorem taken_out {es : List Entry} (there : es[i]? = some e) : (e::es.eraseIdx i).Perm es := by
  obtain ⟨short,same⟩ := List.getElem?_eq_some_iff.mp there
  exact same ▸ List.getElem_cons_eraseIdx_perm short

theorem callers_placed (there : s.admitted[i]? = some e) :
    (s.admitted.eraseIdx i ++ (s.placed ++ [e])).Perm s.callers := by
  have moved : (s.admitted.eraseIdx i ++ (s.placed ++ [e])).Perm (e::(s.admitted.eraseIdx i ++ s.placed)) := by
    rw [← List.append_assoc]
    exact List.perm_append_singleton e _
  exact moved.trans ((taken_out there).append_right s.placed)

theorem callers_pushed (there : s.placed[i]? = some e) : (e::(s.admitted ++ s.placed.eraseIdx i)).Perm s.callers :=
  List.perm_middle.symm.trans ((taken_out there).append_left s.admitted)

theorem perform_alters (around : Surroundings) (s : Scene) (d : Deed) (key : Peer) :
    Alters around s (s.perform around d) key := by
  cases d with
  | ask e =>
    simp only [perform]
    split
    · exact .kept rfl rfl fun _ => ⟨[],List.Perm.refl _⟩
    · rename_i down
      exact .kept rfl rfl fun up => absurd up down
  | place i =>
    simp only [perform]
    split
    · rename_i e there
      have callers := callers_placed there
      cases found : s.registry.sessions.find? e.device.session with
      | some x =>
        rw [SessionSet.place_known found]
        exact .kept rfl rfl fun _ => ⟨[],callers⟩
      | none =>
        obtain ⟨new,others⟩ := SessionSet.place_new found (around.usage e.device.session)
        by_cases own : e.device.session = key
        · subst own
          exact .made rfl found new callers ⟨e,List.mem_append_left _ (List.mem_of_getElem? there),rfl⟩
        · exact .kept rfl (others key (Ne.symm own)) fun _ => ⟨[],callers⟩
    · exact alters_self around s key
  | push i =>
    simp only [perform]
    split
    · rename_i e there
      have callers := callers_pushed there
      split
      · rename_i pushed
        obtain ⟨x,q,found,taken,rfl⟩ := SessionSet.push?_some pushed
        obtain ⟨new,others⟩ := SessionSet.update_found (t:={x with queue:=q}) found rfl
        by_cases own : e.device.session = key
        · subst own
          exact .joined rfl found taken new callers
        · exact .kept rfl (others key (Ne.symm own)) fun _ => ⟨[e],callers⟩
      · exact .kept rfl rfl fun _ => ⟨[e],callers⟩
    · exact alters_self around s key
  | wake k =>
    simp only [perform]
    split
    · rename_i x found
      split
      · rename_i r woken
        have turn := turn_settle found (Session.wake_key woken)
        by_cases own : k = key
        · subst own
          exact .woke found woken turn.events turn.found rfl
        · have still := turn.others key own
          exact .kept (congrArg Life.events still) (congrArg Life.session still) fun _ => ⟨[],List.Perm.refl _⟩
      · exact alters_self around s key
    · exact alters_self around s key
  | pass us => exact .kept rfl rfl fun _ => ⟨[],List.Perm.refl _⟩

theorem perform_up (around : Surroundings) (s : Scene) (d : Deed) : (s.perform around d).up = s.up := by
  cases d with
  | ask e => simp only [perform]; split <;> rfl
  | place i =>
    simp only [perform]
    split
    · simp only [up,hold,SessionSet.place]
      split <;> rfl
    · rfl
  | push i =>
    simp only [perform]
    split
    · split
      · rename_i pushed
        obtain ⟨_,_,_,_,rfl⟩ := SessionSet.push?_some pushed
        rfl
      · rfl
    · rfl
  | wake key =>
    simp only [perform]
    split
    · split <;> rfl
    · rfl
  | pass us => rfl

theorem run_up (around : Surroundings) (s : Scene) (ds : List Deed) : (s.run around ds).up = s.up := by
  induction ds generalizing s with
  | nil => rfl
  | cons d ds ih => exact (ih _).trans (perform_up around s d)

theorem place_refused (down : s.up = false) {usage : Usage} (refused : s.registry.sessions.enqueue? usage e = none) :
    s.registry.sessions.place usage e.device.session = s.registry.sessions := by
  cases found : s.registry.sessions.find? e.device.session with
  | some x => exact SessionSet.place_known found usage
  | none =>
    have fresh : (s.registry.sessions.goal usage e.device.session).queue.push? e ≠ none := by
      simp [SessionSet.goal,found,Session.create,PriorityQueue.empty,PriorityQueue.push?]
    obtain ⟨q,pushed⟩ := Option.ne_none_iff_exists'.mp fresh
    obtain ⟨u,taken,_⟩ := SessionSet.enqueue?_taken down pushed
    cases refused.symm.trans taken

theorem enqueue_in_a_row (around : Surroundings) (s : Scene) (e : Entry) :
    (s.run around [.ask e,.place s.admitted.length,.push s.placed.length]).registry = s.registry.enqueue around e := by
  by_cases up : s.up = true
  · have refused : s.registry.sessions.enqueue? (around.usage e.device.session) e = none :=
      SessionSet.enqueue?_refused (.inl up)
    simp [run,perform,up,Registry.enqueue,refused]
  · have down := Bool.eq_false_iff.mpr up
    have pushed := SessionSet.place_push down (around.usage e.device.session) e
    simp only [run,List.foldl_cons,List.foldl_nil,perform,if_neg up,List.getElem?_concat_length,hold,pushed,Registry.enqueue]
    cases taken : s.registry.sessions.enqueue? (around.usage e.device.session) e with
    | some r => rfl
    | none => simp only [place_refused down taken]

theorem turn_wake {r : Session × List SessionEvent} (found : s.session? key = some x)
    (woken : x.wake (around.devices key) around.format s.registry.sessions.timing s.up s.registry.now = some r) :
    s.perform around (.wake key) = s.settle key r ∧ Turn s (s.perform around (.wake key)) key r := by
  have gone : s.perform around (.wake key) = s.settle key r := by simp only [perform,found,woken]
  exact ⟨gone,gone ▸ turn_settle found (Session.wake_key woken)⟩

theorem turn_halt (around : Surroundings) (up : s.up = true) (found : s.session? key = some x) (wired : x.Wired)
    (live : x.phase ≠ .stopped) : Turn s (s.perform around (.wake key)) key (x.halt s.registry.now) := by
  refine (turn_wake found ?_).2
  rw [up]
  exact Session.wake_up _ _ _ _ wired live

theorem turn_serve (around : Surroundings) (found : s.session? key = some x) :
    Turn s {s with registry:=s.registry.serve around key} key
      (x.serve (around.devices key) around.format s.registry.sessions.timing s.up s.registry.now) := by
  obtain ⟨_,served,out⟩ := SessionSet.runSession_found (around.devices key) around.format s.registry.now found
  have heard := Registry.serve_events around key key s.registry
  rw [if_pos rfl,out] at heard
  exact ⟨rfl,(s.registry.sessions.runSession_rest _ _ _ key).1,served,heard,fun k different =>
    Registry.life_unserved around s.registry different⟩

-- What a registry does with a session in one go is as many waits as come to an end.
theorem run_in_a_row (around : Surroundings) {timing : Timing} {now : Nat} (down : s.up = false) (found : s.session? key = some x)
    (clock : s.registry.now = now) (same : s.registry.sessions.timing = timing) :
    ∃ n, Turn s (s.run around (List.replicate n (.wake key))) key (x.run (around.devices key) around.format timing now) := by
  fun_induction Session.run (around.devices key) around.format timing now x generalizing s with
  | case1 x quiet => exact ⟨0,rfl,rfl,found,(List.append_nil _).symm,fun _ _ => rfl⟩
  | case2 x y out stepped z more rest ih =>
    have woken : x.wake (around.devices key) around.format s.registry.sessions.timing s.up s.registry.now = some (y,out) := by
      rw [down,Session.wake_down,clock,same]
      exact stepped
    obtain ⟨gone,first⟩ := turn_wake found woken
    rw [gone] at first
    obtain ⟨n,turn⟩ := ih (s:=s.settle key (y,out)) down first.found clock same
    rw [rest] at turn
    refine ⟨n+1,?_⟩
    rw [List.replicate_succ,run_cons,gone]
    refine ⟨turn.clock,turn.up,turn.found,?_,fun k different => (turn.others k different).trans (first.others k different)⟩
    rw [turn.events,first.events,List.map_append,List.append_assoc]
    rfl

theorem serve_in_a_row (around : Surroundings) (wired : ∀ x, s.session? key = some x → x.Wired) :
    ∃ n, ∀ k, (s.run around (List.replicate n (.wake key))).registry.life k = (s.registry.serve around key).life k := by
  cases found : s.session? key with
  | none =>
    have absent := SessionSet.runSession_absent (around.devices key) around.format s.registry.now found
    exact ⟨0,fun k => by simp [run,Registry.serve,absent]⟩
  | some x =>
    have served := turn_serve around found
    cases up : s.up with
    | false =>
      obtain ⟨n,turn⟩ := run_in_a_row around up found rfl rfl
      rw [up] at served
      exact ⟨n,turn.same served⟩
    | true =>
      rw [up] at served
      by_cases finished : x.phase = .stopped
      · have still : Turn s s key (x.halt s.registry.now) := by
          rw [Session.halt_stopped finished]
          exact ⟨rfl,rfl,found,(List.append_nil _).symm,fun _ _ => rfl⟩
        exact ⟨0,still.same served⟩
      · exact ⟨1,(turn_halt around up found (wired x found) finished).same served⟩

end Scene
end ModbusMaster
