import ModbusMaster.Proofs.Stack.Interleaving
namespace ModbusMaster

-- The end of the service among callers that go on. It waits for the sessions that it has
-- collected; a caller that saw the flag down before it was raised comes to its session
-- whenever it likes.

namespace Floor
variable {devices : Peer → Device} {f g u v : Floor} {act : Act} {acts : List Act} {keys standing : List Peer}
  {key : Peer} {s : Session}

inductive Alters (devices : Peer → Device) (f u : Floor) : Prop where
  | still (same : ∀ k, u.session? k = f.session? k) (log : u.log = f.log)
  | opened (e : Entry) (usage : Usage) (admitted : .admitted e ∈ f.callers) (fresh : f.session? e.device.session = none)
    (new : u.session? e.device.session = some (Session.create e.device.session usage))
    (others : ∀ k, k ≠ e.device.session → u.session? k = f.session? k) (log : u.log = f.log)
  | queued (key : Peer) (s : Session) (e : Entry) (q : PriorityQueue) (found : f.session? key = some s)
    (pushed : s.queue.push? e = some q) (new : u.session? key = some {s with queue:=q})
    (others : ∀ k, k ≠ key → u.session? k = f.session? k) (log : u.log = f.log)
  | served (key : Peer) (s : Session) (r : Session × List SessionEvent) (found : f.session? key = some s)
    (live : s.phase ≠ .stopped) (ended : r.1.phase = .stopped → r.1.queue.accepting = false)
    (new : u.session? key = some r.1)
    (others : ∀ k, k ≠ key → u.session? k = f.session? k) (log : u.log = f.log ++ r.2.map (f.now,key,·))

theorem settle_session (found : f.session? key = some s) {r : Session × List SessionEvent} (same : r.1.key = s.key) :
    (f.settle key r).session? key = some r.1 ∧ ∀ k, k ≠ key → (f.settle key r).session? k = f.session? k :=
  SessionSet.update_found found same

theorem performs_alters (performs : Performs devices f u) : Alters devices f u := by
  cases performs with
  | placed i e usage admitted =>
    cases found : f.engine.sessions.find? e.device.session with
    | some s =>
      rw [SessionSet.place_known found]
      exact .still (fun _ => rfl) rfl
    | none =>
      obtain ⟨new,others⟩ := SessionSet.place_new found usage
      exact .opened e usage admitted found new others rfl
  | pushed i e r pushed =>
    obtain ⟨s,q,found,taken,rfl⟩ := SessionSet.push?_some pushed
    obtain ⟨new,others⟩ := SessionSet.update_found (t:={s with queue:=q}) found rfl
    exact .queued _ s e q found taken new others rfl
  | worked key s r found steps =>
    obtain ⟨new,others⟩ := settle_session found (Session.conserves_step steps).key
    have live : s.phase ≠ .stopped := fun stopped => by
      have stepped := Session.step_complete steps
      simp [Session.step,stopped] at stepped
    exact .served key s r found live (fun stopped => absurd stopped (Session.step_live steps)) new others rfl
  | drained key s found =>
    obtain ⟨new,others⟩ := settle_session found (Session.conserves_halt f.now s).key
    by_cases stopped : s.phase = .stopped
    · rw [Session.halt_stopped stopped] at new others ⊢
      refine .still (fun k => ?_) (List.append_nil _)
      by_cases here : k = key
      · subst here
        exact new.trans found.symm
      · exact others k here
    · refine .served key s _ found stopped (fun _ => ?_) new others rfl
      rw [Session.halt_live stopped]
      rfl
  | _ => exact .still (fun _ => rfl) rfl

theorem place_halted (r : SessionSet) (usage : Usage) (key : Peer) : (r.place usage key).halted = r.halted := by
  unfold SessionSet.place
  split <;> rfl

theorem performs_halted (halted : f.engine.sessions.halted = true) (performs : Performs devices f u) :
    u.engine.sessions.halted = true ∧ ∀ e, .admitted e ∈ u.callers → .admitted e ∈ f.callers := by
  have moved {i : Nat} {c : Stage} (other : ∀ e, c ≠ .admitted e) (e : Entry)
      (member : .admitted e ∈ f.callers.set i c) :
      .admitted e ∈ f.callers := (List.mem_or_eq_of_mem_set member).resolve_right fun same => other e same.symm
  cases performs with
  | fetched c other =>
    refine ⟨halted,fun e member => (List.mem_append.mp member).resolve_right fun new => ?_⟩
    exact other e (List.mem_singleton.mp new).symm
  | moved table i c other => exact ⟨halted,moved other⟩
  | admitted i e down => simp [halted] at down
  | placed i e usage => exact ⟨(place_halted _ usage _).trans halted,moved (by simp)⟩
  | pushed i e r pushed =>
    obtain ⟨_,_,_,_,rfl⟩ := SessionSet.push?_some pushed
    exact ⟨halted,moved (by simp)⟩
  | raised => exact ⟨rfl,fun _ member => member⟩
  | _ => exact ⟨halted,fun _ member => member⟩

def Drained (f : Floor) : Prop := ∀ k s, f.session? k = some s → s.phase = .stopped → s.queue.accepting = false

theorem drained_performs (drained : f.Drained) (performs : Performs devices f u) : u.Drained := by
  have changed {key : Peer} {t : Session} (new : u.session? key = some t)
      (others : ∀ k, k ≠ key → u.session? k = f.session? k) (fine : t.phase = .stopped → t.queue.accepting = false) :
      u.Drained := by
    intro k s found stopped
    by_cases here : k = key
    · subst here
      cases new.symm.trans found
      exact fine stopped
    · exact drained k s (others k here ▸ found) stopped
  cases performs_alters performs with
  | still same => exact fun k s found => drained k s (same k ▸ found)
  | opened e usage admitted fresh new others => exact changed new others fun stopped => by cases stopped
  | queued key s e q found pushed new others =>
    refine changed new others fun stopped => ?_
    have shut := drained key s found stopped
    simp [PriorityQueue.push?,shut] at pushed
  | served key s r found live ended new others => exact changed new others ended

-- From the moment on when the sessions to wait for have been collected: which sessions there
-- can be, by those that there were and the callers that stood between the flag and them.
structure Closing (keys standing : List Peer) (f : Floor) : Prop where
  drained : f.Drained
  halted : f.engine.sessions.halted = true
  known : ∀ k ∈ keys, f.session? k ≠ none
  among : ∀ k, f.session? k ≠ none → k ∈ keys ∨ k ∈ standing
  admitted : ∀ e, .admitted e ∈ f.callers → e.device.session ∈ standing
  ending : f.ending = .waiting keys ∨
    f.ending = .returned keys ∧ ∀ k ∈ keys, ∀ s, f.session? k = some s → s.phase = .stopped

theorem alters_there (alters : Alters devices f u) (k : Peer) : (f.session? k ≠ none → u.session? k ≠ none) ∧
    (u.session? k ≠ none → f.session? k ≠ none ∨ ∃ e, .admitted e ∈ f.callers ∧ e.device.session = k) := by
  have changed {key : Peer} {t : Session} (new : u.session? key = some t)
      (others : ∀ k, k ≠ key → u.session? k = f.session? k) (was : f.session? key ≠ none ∨
        ∃ e, .admitted e ∈ f.callers ∧ e.device.session = key) : (f.session? k ≠ none → u.session? k ≠ none) ∧
      (u.session? k ≠ none → f.session? k ≠ none ∨ ∃ e, .admitted e ∈ f.callers ∧ e.device.session = k) := by
    by_cases here : k = key
    · subst here
      exact ⟨fun _ => by simp [new],fun _ => was⟩
    · rw [others k here]
      exact ⟨id,.inl⟩
  cases alters with
  | still same =>
    rw [same k]
    exact ⟨id,.inl⟩
  | opened e usage admitted fresh new others => exact changed new others (.inr ⟨e,admitted,rfl⟩)
  | queued key s e q found pushed new others => exact changed new others (.inl (by simp [found]))
  | served key s r found live ended new others => exact changed new others (.inl (by simp [found]))

theorem alters_stopped (alters : Alters devices f u) (drained : f.Drained) (found : f.session? key = some s)
    (stopped : s.phase = .stopped) : u.session? key = some s := by
  cases alters with
  | still same => exact (same key).trans found
  | opened e usage admitted fresh new others =>
    refine (others key fun here => ?_).trans found
    rw [← here,found] at fresh
    cases fresh
  | queued other t e q found' pushed new others =>
    refine (others key fun here => ?_).trans found
    subst here
    cases found.symm.trans found'
    simp [PriorityQueue.push?,drained key s found stopped] at pushed
  | served other t r found' live ended new others =>
    refine (others key fun here => ?_).trans found
    subst here
    cases found.symm.trans found'
    exact live stopped

theorem performs_ending (performs : Performs devices f u) (waiting : f.ending = .waiting keys) :
    u.ending = .waiting keys ∨ u.ending = .returned keys ∧
      (∀ k ∈ keys, ∀ s, f.session? k = some s → s.phase = .stopped) ∧
      ∀ k, u.session? k = f.session? k := by
  cases performs with
  | taken other => cases waiting.symm.trans other
  | raised other => cases waiting.symm.trans other
  | collected other => cases waiting.symm.trans other
  | finished _ same gone =>
    cases waiting.symm.trans same
    exact .inr ⟨rfl,gone,fun _ => rfl⟩
  | _ => exact .inl waiting

theorem performs_returned (performs : Performs devices f u) (returned : f.ending = .returned keys) :
    u.ending = .returned keys := by
  cases performs with
  | taken other => cases returned.symm.trans other
  | raised other => cases returned.symm.trans other
  | collected other => cases returned.symm.trans other
  | finished _ other => cases returned.symm.trans other
  | _ => exact returned

theorem closing_performs (closing : Closing keys standing f) (performs : Performs devices f u) :
    Closing keys standing u := by
  have alters := performs_alters performs
  obtain ⟨halted,admitted⟩ := performs_halted closing.halted performs
  refine ⟨drained_performs closing.drained performs,halted,
    fun k member => (alters_there alters k).1 (closing.known k member),?_,
    fun e member => closing.admitted e (admitted e member),?_⟩
  · intro k there
    rcases (alters_there alters k).2 there with old | ⟨e,member,rfl⟩
    · exact closing.among k old
    · exact .inr (closing.admitted e member)
  · rcases closing.ending with waiting | ⟨returned,gone⟩
    · rcases performs_ending performs waiting with still | ⟨returned,gone,same⟩
      · exact .inl still
      · exact .inr ⟨returned,fun k member s found => gone k member s (same k ▸ found)⟩
    · refine .inr ⟨performs_returned performs returned,fun k member s found => ?_⟩
      obtain ⟨t,there⟩ := Option.ne_none_iff_exists'.mp (closing.known k member)
      have stopped := gone k member t there
      cases (alters_stopped alters closing.drained there stopped).symm.trans found
      exact stopped

theorem performs_log (closing : Closing keys standing f) (returned : f.ending = .returned keys)
    (performs : Performs devices f u) :
    ∃ more, u.log = f.log ++ more ∧ ∀ x ∈ more, x.2.1 ∈ standing ∧ x.2.1 ∉ keys := by
  cases performs_alters performs with
  | still _ log => exact ⟨[],by simp [log],by simp⟩
  | opened _ _ _ _ _ _ log => exact ⟨[],by simp [log],by simp⟩
  | queued _ _ _ _ _ _ _ _ log => exact ⟨[],by simp [log],by simp⟩
  | served key s r found live ended new others log =>
    have fresh : key ∉ keys := fun member => by
      rcases closing.ending with waiting | ⟨_,gone⟩
      · cases waiting.symm.trans returned
      · exact live (gone key member s found)
    have own := (closing.among key (by simp [found])).resolve_left fresh
    refine ⟨_,log,fun x member => ?_⟩
    obtain ⟨_,_,rfl⟩ := List.mem_map.mp member
    exact ⟨own,fresh⟩

-- Before the sessions are collected: none that has ended takes anything, and the one who
-- ends the service has raised the flag before it goes on.
structure Opening (f : Floor) : Prop where
  drained : f.Drained
  raised : f.ending = .raised → f.engine.sessions.halted = true

theorem opening_start (format : Format) (slots : Nat) (timing : Timing) : Opening (start format slots timing) :=
  ⟨fun _ _ found => (by cases found),fun raised => (by cases raised)⟩

theorem opening_performs (opening : Opening f) (performs : Performs devices f u) : Opening u := by
  refine ⟨drained_performs opening.drained performs,fun raised => ?_⟩
  cases performs with
  | raised => rfl
  | taken => cases raised
  | collected => cases raised
  | finished => cases raised
  | placed i e usage => exact (place_halted _ usage _).trans (opening.raised raised)
  | pushed i e r pushed =>
    obtain ⟨_,_,_,_,rfl⟩ := SessionSet.push?_some pushed
    exact opening.raised raised
  | _ => exact opening.raised raised

def passing (f : Floor) : List Peer := f.callers.filterMap fun
  | .admitted e => some e.device.session
  | _ => none

theorem mem_sessions {k : Peer} : k ∈ f.engine.sessions.keys ↔ f.session? k ≠ none := by
  simp [SessionSet.keys,session?,SessionSet.find?]

theorem closing_collects (opening : Opening f) (raised : f.ending = .raised) :
    Closing f.engine.sessions.keys f.passing {f with ending:=.waiting f.engine.sessions.keys} := by
  refine ⟨opening.drained,opening.raised raised,fun k => mem_sessions.mp,
    fun k found => .inl (mem_sessions.mpr found),?_,.inl rfl⟩
  intro e member
  exact List.mem_filterMap.mpr ⟨_,member,rfl⟩

theorem run_log (closing : Closing keys standing f) (returned : f.ending = .returned keys)
    (ran : f.run devices acts = some u) :
    ∃ late, u.log = f.log ++ late ∧ ∀ x ∈ late, x.2.1 ∈ standing ∧ x.2.1 ∉ keys := by
  induction acts generalizing f with
  | nil =>
    cases ran
    exact ⟨[],(List.append_nil _).symm,by simp⟩
  | cons act rest ih =>
    obtain ⟨g,done,ran⟩ := run_cons ran
    have performs := perform_performs done
    obtain ⟨now,heard,own⟩ := performs_log closing returned performs
    obtain ⟨later,rest,owned⟩ := ih (closing_performs closing performs) (performs_returned performs returned) ran
    refine ⟨now ++ later,?_,fun x member => (List.mem_append.mp member).elim (own x) (owned x)⟩
    rw [rest,heard,List.append_assoc]

-- An end of the service in any interleaving, up to its return and on: every session that was
-- there when they were collected has ended, and is not heard of again. One that is running
-- then, or is heard of after, was brought by a caller that was past the flag already.
theorem shutdown_ends {before after later : List Act} {format : Format} {slots : Nat} {timing : Timing}
    (reached : (start format slots timing).run devices before = some f)
    (collected : f.perform devices .collect = some g) (waited : g.run devices after = some u)
    (returned : ∃ keys, u.ending = .returned keys) (ran : u.run devices later = some v) :
    (∀ k s, u.session? k = some s → s.phase = .stopped ∨ k ∈ f.passing ∧ f.session? k = none) ∧
      ∃ late, v.log = u.log ++ late ∧ ∀ x ∈ late, x.2.1 ∈ f.passing ∧ f.session? x.2.1 = none := by
  have opening : Opening f := run_keeps (fun _ _ => opening_performs) (opening_start format slots timing) reached
  have raised : f.ending = .raised ∧ g = {f with ending:=.waiting f.engine.sessions.keys} := by
    simp only [perform] at collected
    split at collected <;> cases collected
    exact ⟨‹_›,rfl⟩
  have closing : Closing f.engine.sessions.keys f.passing u :=
    run_keeps (fun _ _ => closing_performs) (raised.2 ▸ closing_collects opening raised.1) waited
  obtain ⟨returned,gone⟩ := closing.ending.resolve_left fun waiting => by simp [waiting] at returned
  constructor
  · intro k s found
    by_cases old : k ∈ f.engine.sessions.keys
    · exact .inl (gone k old s found)
    · have own := (closing.among k (by simp [found])).resolve_left old
      exact .inr ⟨own,Classical.not_not.mp (mt mem_sessions.mpr old)⟩
  · obtain ⟨late,heard,owned⟩ := run_log closing returned ran
    refine ⟨late,heard,fun x member => ⟨(owned x member).1,?_⟩⟩
    exact Classical.not_not.mp (mt mem_sessions.mpr (owned x member).2)

theorem shutdown_complete {before after later : List Act} {format : Format} {slots : Nat} {timing : Timing}
    (reached : (start format slots timing).run devices before = some f)
    (collected : f.perform devices .collect = some g) (alone : f.passing = [])
    (waited : g.run devices after = some u) (returned : ∃ keys, u.ending = .returned keys)
    (ran : u.run devices later = some v) : (∀ k s, u.session? k = some s → s.phase = .stopped) ∧ v.log = u.log := by
  obtain ⟨gone,late,heard,owned⟩ := shutdown_ends reached collected waited returned ran
  rw [alone] at gone owned
  have silent : late = [] := List.eq_nil_iff_forall_not_mem.mpr fun x member => List.not_mem_nil (owned x member).1
  refine ⟨fun k s found => (gone k s found).resolve_right fun late => List.not_mem_nil late.1,?_⟩
  rw [heard,silent,List.append_nil]

-- A caller that passes the flag before it is raised comes to its session after the return,
-- and its request is accepted.
def early : List Act :=
  [.fetch (.normal 7 ⟨.serial,1⟩) (.read .readHoldingRegisters 0 1) 0 .caller,.reserve 0,.check 0,
    .take,.raise,.collect,.finish]

def belated : List Act := [.place 0,.push 0,.drain .serial]

theorem accepted_behind_return : ∃ u v e, (start .rtu 4 Timing.standard).run (fun _ => default) early = some u ∧
    u.ending = .returned [] ∧ u.log = [] ∧ u.run (fun _ => default) belated = some v ∧ v.callers = [.accepted e] ∧
    v.log = [(0,.serial,.done (e.complete .shutdown none (Time.Instant.ofMicros 0)) .caller)] := by
  refine ⟨_,_,_,rfl,rfl,rfl,rfl,rfl,rfl⟩

end Floor
end ModbusMaster
