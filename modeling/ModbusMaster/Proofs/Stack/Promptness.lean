import ModbusMaster.Proofs.Session.Isolation
import ModbusMaster.Proofs.Stack.Rounds
import ModbusMaster.Proofs.Stack.Sessions
namespace ModbusMaster

-- Time in a station goes on only when every session has done what it can, and it stops at
-- the timer of each.

def Task.rank : Task → Nat
  | .responder _ => 0
  | .session _ => 1
  | .writer _ => 2

namespace Station
variable {s t u : Station} {key : Peer} {x : Session} {ready : List Task} {a : Task} {n : Nat} {target now : Nat}
  {h : List Happening}

def Rests (s : Station) (key : Peer) (x : Session) : Prop :=
  x.settled (s.devices key) s.engine.format s.engine.sessions.timing s.engine.sessions.halted s.now = true

-- A session that has something left to do is going to run: it is on the agenda, or among
-- what is still left of this round.
def Awake (ready : List Task) (s : Station) : Prop := ∀ key x, s.engine.sessions.find? key = some x →
  s.Rests key x ∨ .session key ∈ s.agenda ∨ .session key ∈ ready

def Adds (n : Nat) (s t : Station) : Prop := ∃ new, t.agenda = s.agenda ++ new ∧ ∀ a ∈ new, a.rank < n

structure Works (n : Nat) (s t : Station) : Prop where
  adds : s.Adds n t
  awake : ∀ ready, s.Awake ready → t.Awake ready

theorem adds_nothing (same : t.agenda = s.agenda) : s.Adds n t := ⟨[],by rw [same,List.append_nil],fun _ member => by cases member⟩

theorem Adds.trans (one : s.Adds n t) (two : t.Adds n u) : s.Adds n u := by
  obtain ⟨first,same,low⟩ := one
  obtain ⟨second,same',low'⟩ := two
  refine ⟨first ++ second,by rw [same',same,List.append_assoc],?_⟩
  intro a member
  exact (List.mem_append.mp member).elim (low a) (low' a)

theorem Adds.keeps (adds : s.Adds n t) (member : a ∈ s.agenda) : a ∈ t.agenda := by
  obtain ⟨new,same,_⟩ := adds
  rw [same]
  exact List.mem_append_left new member

theorem adds_wake (s : Station) (low : a.rank < n) : s.Adds n (s.wake a) := by
  unfold wake
  split
  · exact adds_nothing rfl
  · exact ⟨[a],rfl,fun b member => List.mem_singleton.mp member ▸ low⟩

theorem adds_wakeAll (s : Station) {tasks : List Task} (low : ∀ a ∈ tasks, a.rank < n) : s.Adds n (s.wakeAll tasks) := by
  induction tasks generalizing s with
  | nil => exact adds_nothing rfl
  | cons a tasks ih =>
    exact (s.adds_wake (low a List.mem_cons_self)).trans (ih (s.wake a) fun b later => low b (List.mem_cons_of_mem a later))

theorem Works.trans (one : s.Works n t) (two : t.Works n u) : s.Works n u :=
  ⟨one.adds.trans two.adds,fun ready awake => two.awake ready (one.awake ready awake)⟩

theorem works_beside (sessions : t.engine.sessions = s.engine.sessions) (setting : t.setting = s.setting) (now : t.now = s.now)
    (adds : s.Adds n t) : s.Works n t := by
  refine ⟨adds,fun ready awake key x found => ?_⟩
  obtain ⟨format,devices⟩ := Prod.mk.inj setting
  rw [sessions] at found
  rw [Rests,sessions,format,devices,now]
  exact (awake key x found).imp id (Or.imp adds.keeps id)

theorem works_same (engine : t.engine = s.engine) (devices : t.devices = s.devices) (now : t.now = s.now)
    (agenda : t.agenda = s.agenda) : s.Works n t :=
  works_beside (congrArg Engine.sessions engine) (by rw [setting,setting,engine,devices]) now (adds_nothing agenda)

theorem Observes.works {e : SessionEvent} (observes : Observes s e t h) : s.Works 1 t := by
  cases observes with
  | queued room ready =>
    refine works_beside rfl rfl rfl ?_
    unfold Adds
    rw [ready]
    refine s.adds_wakeAll fun a member => ?_
    obtain ⟨w,_,rfl⟩ := List.mem_map.mp member
    exact Nat.zero_lt_one
  | _ => exact works_same rfl rfl rfl rfl

theorem observeAll_works (key : Peer) (s : Station) (out : List SessionEvent) : s.Works 1 (out.foldl (observe key) s) := by
  induction out generalizing s with
  | nil => exact works_same rfl rfl rfl rfl
  | cons e out ih => exact (observe_observes key s e).works.trans (ih (observe key s e))

theorem runSession_awake (awake : s.Awake (.session key::ready)) : (s.runSession key).Awake ready := by
  refine (observeAll_works key {s with engine:=(s.engine.runSession (s.devices key) s.now key).1} _).awake ready ?_
  intro other x found
  have rest := s.engine.sessions.runSession_rest (s.devices key) s.engine.format s.now key
  change (s.engine.sessions.runSession (s.devices key) s.engine.format s.now key).1.find? other = some x at found
  by_cases here : other = key
  · subst here
    left
    change x.settled _ _ _ _ _ = true
    dsimp only [Engine.runSession]
    rw [rest.1,rest.2]
    cases before : s.engine.sessions.find? other with
    | none =>
      rw [SessionSet.runSession_absent _ _ _ before,before] at found
      cases found
    | some y =>
      rw [(SessionSet.runSession_found _ _ _ before).2.1] at found
      cases found
      exact Session.serve_settled _ _ _ _ _ y
  · rw [SessionSet.runSession_other _ _ _ _ here] at found
    rcases awake other x found with rests | listed | listed
    · left
      change x.settled _ _ _ _ _ = true
      dsimp only [Engine.runSession]
      rw [rest.1,rest.2]
      exact rests
    · exact .inr (.inl listed)
    · refine .inr (.inr ((List.mem_cons.mp listed).resolve_left fun same => here ?_))
      cases same
      rfl

theorem call_works (s : Station) (goal : Target) (op : Operation) (handler : Option Handler) :
    s.Works 2 (s.call goal op handler).2 := by
  obtain ⟨format,handed | other⟩ := s.engine.call_sessions goal op handler
  · obtain ⟨success,e,framed,taken⟩ := handed
    have route : e.device = goal.device := (Engine.framed?_target framed).2.1
    have called : (s.call goal op handler).2 =
        wake {s with engine:=(s.engine.call goal op handler).2} (.session goal.device.session) := if_pos success
    have adds : s.Adds 2 (s.call goal op handler).2 := by
      rw [called]
      exact adds_wake {s with engine:=(s.engine.call goal op handler).2} Nat.one_lt_two
    refine ⟨adds,fun ready awake key x found => ?_⟩
    obtain ⟨_,_,_,entered⟩ := SessionSet.enqueue?_entered taken
    by_cases here : key = goal.device.session
    · subst here
      refine .inr (.inl ?_)
      rw [called]
      exact (mem_wake _ _ _).mpr (.inl rfl)
    · rw [called,wake_same] at found
      rcases awake key x ((entered.others key (by rwa [route])).symm.trans found) with rests | listed | listed
      · left
        rw [called,wake_same]
        unfold Rests at rests ⊢
        dsimp only
        rw [entered.halted,entered.timing,format]
        exact rests
      · exact .inr (.inl (adds.keeps listed))
      · exact .inr (.inr listed)
  · have called : (s.call goal op handler).2 = {s with engine:=(s.engine.call goal op handler).2} := if_neg other.1
    rw [called]
    exact works_beside other.2 (congrArg (·,s.devices) format) rfl (adds_nothing rfl)

theorem issue_works (s : Station) (r : OpenRequest) (id : UInt16) (device : DeviceAddress) (priority : Int) (op : Operation) :
    s.Works 2 (s.issue r id device priority op).2 := by
  have called := s.call_works ⟨id,device,priority⟩ op (some .points)
  unfold issue
  dsimp only
  split
  · exact called
  · split
    · exact called
    · exact called.trans (works_same rfl rfl rfl rfl)

theorem hold_works (s : Station) (pending : OpenRequests) : s.Works n (s.hold pending) := works_same rfl rfl rfl rfl

theorem pollPoint_works (s : Station) (p : Point) : s.Works 2 (s.pollPoint p).2 := by
  unfold pollPoint
  split
  · exact works_same rfl rfl rfl rfl
  · dsimp only
    split
    · exact works_same rfl rfl rfl rfl
    · exact (s.hold_works _).trans (issue_works _ _ _ _ _ _)

theorem pollPoints_works (s : Station) (points : List Point) : s.Works 2 (s.pollPoints points).2 := by
  induction points generalizing s with
  | nil => exact works_same rfl rfl rfl rfl
  | cons p points ih => exact (s.pollPoint_works p).trans (ih (s.pollPoint p).2)

theorem pollBuckets_works (s : Station) (due : List Bucket) :
    s.Works 2 (due.foldl (fun s b => (s.pollPoints b.points).2) s) := by
  induction due generalizing s with
  | nil => exact works_same rfl rfl rfl rfl
  | cons b due ih => exact (s.pollPoints_works b.points).trans (ih (s.pollPoints b.points).2)

theorem poll_works (s : Station) : s.Works 2 s.poll := by
  unfold poll
  split
  · exact works_same rfl rfl rfl rfl
  · split
    · exact works_same rfl rfl rfl rfl
    · refine Works.trans ?_ (pollBuckets_works _ _)
      exact works_same rfl rfl rfl rfl

theorem handle_works (s : Station) (raw : String) : s.Works 2 (s.handle raw).2 := by
  unfold handle
  split
  · exact works_same rfl rfl rfl rfl
  · dsimp only
    split
    · exact works_same rfl rfl rfl rfl
    · exact (s.hold_works _).trans (issue_works _ _ _ _ _ _)

theorem handleQueued_works (n : Nat) (s : Station) : s.Works 2 (handleQueued n s) := by
  induction n generalizing s with
  | zero => exact works_same rfl rfl rfl rfl
  | succ n ih =>
    unfold handleQueued
    split
    · exact works_same rfl rfl rfl rfl
    · rename_i raw q _
      have taken : s.Works 2 {s with intents:=q} := works_same rfl rfl rfl rfl
      exact (taken.trans (handle_works _ raw)).trans (ih _)

theorem runWriter_works (s : Station) (w : Nat) : s.Works 2 (s.runWriter w) := by
  unfold runWriter
  split
  · exact works_same rfl rfl rfl rfl
  · split
    · exact works_same rfl rfl rfl rfl
    · refine Works.trans ?_ (handleQueued_works _ _)
      exact works_same rfl rfl rfl rfl

theorem Responds.leaves {w : Nat} (responds : Responds s w t h) : s.Works 0 t := by
  cases responds <;> exact works_same rfl rfl rfl rfl

theorem runTask_works (s : Station) (a : Task) :
    s.Adds a.rank (s.runTask a) ∧ ∀ ready, s.Awake (a::ready) → (s.runTask a).Awake ready := by
  have drop (foreign : ∀ key, a ≠ .session key) {ready : List Task} (awake : s.Awake (a::ready)) : s.Awake ready :=
    fun key x found => (awake key x found).imp id (Or.imp id fun listed =>
      (List.mem_cons.mp listed).resolve_left fun same => foreign key same.symm)
  cases a with
  | session key =>
    exact ⟨(observeAll_works key {s with engine:=(s.engine.runSession (s.devices key) s.now key).1} _).adds,
      fun _ => runSession_awake⟩
  | responder w =>
    have works := (s.runResponder_responds w).leaves
    exact ⟨works.adds,fun ready awake => works.awake ready (drop (fun _ => by simp) awake)⟩
  | writer w =>
    have works := s.runWriter_works w
    exact ⟨works.adds,fun ready awake => works.awake ready (drop (fun _ => by simp) awake)⟩

theorem runAll_awake (awake : s.Awake ready) : (ready.foldl runTask s).Awake [] := by
  induction ready generalizing s with
  | nil => exact awake
  | cons a ready ih => exact ih ((s.runTask_works a).2 ready awake)

theorem runAll_below (below : ∀ a ∈ ready, a.rank < n+1) (low : ∀ a ∈ s.agenda, a.rank < n) :
    ∀ a ∈ (ready.foldl runTask s).agenda, a.rank < n := by
  induction ready generalizing s with
  | nil => exact low
  | cons b ready ih =>
    refine ih (fun a later => below a (List.mem_cons_of_mem b later)) ?_
    obtain ⟨new,same,under⟩ := (s.runTask_works b).1
    intro a member
    rw [same] at member
    have rank := below b List.mem_cons_self
    exact (List.mem_append.mp member).elim (low a) fun added => Nat.lt_of_lt_of_le (under a added) (Nat.le_of_lt_succ rank)

theorem round_awake (awake : s.Awake []) : s.round.Awake [] :=
  runAll_awake (s:={s with agenda:=[]}) fun key x found => (awake key x found).imp id fun listed => .inr (listed.resolve_right (by simp))

theorem round_below (below : ∀ a ∈ s.agenda, a.rank < n+1) : ∀ a ∈ s.round.agenda, a.rank < n :=
  runAll_below below fun _ member => by cases member

-- After three rounds nothing is left on the agenda, and so all sessions rest.
theorem settle_idle (s : Station) : s.settle.agenda = [] := by
  have low : ∀ a ∈ s.agenda, a.rank < 3 := fun a _ => by cases a <;> simp [Task.rank]
  refine List.eq_nil_iff_forall_not_mem.mpr fun a member => ?_
  exact Nat.not_lt_zero _ (round_below (round_below (round_below low)) a member)

theorem settle_awake (awake : s.Awake []) : s.settle.Awake [] := round_awake (round_awake (round_awake awake))

theorem settle_rests (awake : s.Awake []) (found : s.settle.engine.sessions.find? key = some x) : s.settle.Rests key x := by
  rcases settle_awake awake key x found with rests | listed | listed
  · exact rests
  · rw [settle_idle] at listed
    cases listed
  · cases listed

structure Prompt (s : Station) (t : Nat) : Prop where
  later : s.now ≤ t
  rests : ∀ key x, s.engine.sessions.find? key = some x → s.Rests key x ∧ ∀ u ∈ x.timer?, t ≤ u

theorem Prompt.passes {around : Surroundings} {cues : List Cue} {r : Registry} (prompt : s.Prompt target)
    (runs : Registry.Runs around key cues r) (now : r.now = s.now) (sessions : r.sessions = s.engine.sessions)
    (format : around.format = s.engine.format) (devices : around.devices = s.devices) :
    Registry.Runs around key cues (r.tick target) := by
  have timing := runs.follows.1
  refine runs.passed target ?_ (now ▸ prompt.later) fun u timer => ?_
  · unfold Registry.rests Life.rests
    split
    · rfl
    · rename_i x found
      change x.settled (around.devices key) around.format around.timing r.sessions.halted r.now = true
      rw [← timing,devices,format,sessions,now]
      exact (prompt.rests key x (by rw [← sessions]; exact found)).1
  · obtain ⟨x,found,timer⟩ := Option.bind_eq_some_iff.mp timer
    exact (prompt.rests key x (by rw [← sessions]; exact found)).2 u timer

def Patient : Station → List Move → Prop
  | _,[] => True
  | s,m::ms => (∀ t, m = .clock t → s.Prompt t) ∧ (s.move m).Patient ms

theorem patient_append {ms ns : List Move} : s.Patient (ms ++ ns) ↔ s.Patient ms ∧ (s.moves ms).Patient ns := by
  induction ms generalizing s with
  | nil => simp [Patient,moves]
  | cons m ms ih => simp [Patient,moves,ih,and_assoc]

theorem patient_silent {ms : List Move} (silent : ∀ m ∈ ms, ∀ t, m ≠ .clock t) : s.Patient ms := by
  induction ms generalizing s with
  | nil => trivial
  | cons m ms ih =>
    exact ⟨fun t same => (silent m List.mem_cons_self t same).elim,
      ih fun n later => silent n (List.mem_cons_of_mem m later)⟩

theorem settling_patient (sound : Sound s) : s.Patient s.settling := by
  refine patient_silent fun m among t => ?_
  rintro rfl
  exact (settling_calm sound among).elim

-- At an instant whose time has come before any timer is past, those whose timer is up are
-- made ready.
theorem arrive_awake (prompt : s.Prompt target) : (s.arrive target).Awake [] := by
  refine (poll_works (s.roused target)).awake [] fun key x found => ?_
  have same := s.roused_same target
  rw [same] at found
  obtain ⟨rests,early⟩ := prompt.rests key x found
  by_cases up : x.timer? = some target
  · refine .inr (.inl ((mem_wakeAll _ _ _).mpr (.inl (List.mem_map_of_mem ?_))))
    have named := (SessionSet.find?_split found).1
    exact List.mem_map.mpr ⟨x,List.mem_filter.mpr ⟨SessionSet.find?_mem found,by simp [up]⟩,named⟩
  · left
    rw [same]
    change x.settled _ _ _ _ target = true
    refine Session.settled_later rests fun u timer => ?_
    have within := early u timer
    exact Nat.lt_of_le_of_ne within fun equal => up (equal ▸ timer)

theorem settle_timer {u : Nat} (awake : s.Awake []) (found : s.settle.engine.sessions.find? key = some x)
    (timer : x.timer? = some u) : u ∈ s.settle.timers := by
  have later : s.settle.now < u := Session.settled_timer (settle_rests awake found) timer
  exact List.mem_append_left _ (List.mem_filter.mpr
    ⟨List.mem_filterMap.mpr ⟨x,SessionSet.find?_mem found,timer⟩,decide_eq_true later⟩)

theorem settle_prompt (sound : Sound s) (awake : s.Awake []) (ahead : s.now ≤ target)
    (first : ∀ u ∈ s.settle.timers, target ≤ u) : s.settle.Prompt target := by
  have here : s.settle.now = s.now := congrArg Prod.fst (settle_dial sound)
  exact ⟨by rwa [here],fun key x found => ⟨settle_rests awake found,fun u timer => first u (settle_timer awake found timer)⟩⟩

theorem arriving_patient (prompt : s.Prompt target) : s.Patient (s.arriving target) := by
  refine ⟨fun t same => ?_,patient_silent fun m later t => ?_⟩
  · cases same
    exact prompt
  · rintro rfl
    rcases List.mem_cons.mp later with same | later
    · cases same
    · rcases List.mem_cons.mp later with same | later
      · cases same
      · obtain ⟨p,_,same⟩ := List.mem_map.mp later
        cases same

theorem timers_later {u : Nat} (among : u ∈ s.timers) : s.now < u := by
  rcases List.mem_append.mp among with session | poller
  · exact of_decide_eq_true (List.mem_filter.mp session).2
  · exact of_decide_eq_true (List.mem_filter.mp poller).2

theorem passing_patient (sound : Sound s) (awake : s.Awake []) (here : s.now = now) (ahead : now ≤ target) :
    s.Patient (passing target now s) ∧ (s.moves (passing target now s)).Awake [] := by
  fun_induction passing target now s with
  | case1 now s nothing =>
    have beyond : ∀ u ∈ s.settle.timers, target < u := fun u among => Nat.lt_of_not_le fun within => by
      have kept : u ∈ s.settle.timers.filter (· ≤ target) := List.mem_filter.mpr ⟨among,decide_eq_true within⟩
      rw [List.min?_eq_none_iff.mp nothing] at kept
      cases kept
    have prompt := settle_prompt sound awake (here ▸ ahead) fun u among => Nat.le_of_lt (beyond u among)
    rw [patient_append,moves_append,settling_moves sound]
    refine ⟨⟨settling_patient sound,?_,trivial⟩,fun key x found => .inl ?_⟩
    · rintro t same
      cases same
      exact prompt
    · exact Session.settled_later (t:=target) (settle_rests awake found) fun u timer => beyond u (settle_timer awake found timer)
  | case2 now s t first within ih =>
    obtain ⟨kept,least⟩ := List.min?_eq_some_iff.mp first
    have calm := settle_sound sound
    have before : ∀ u ∈ s.settle.timers, t ≤ u := fun u among => by
      by_cases near : u ≤ target
      · exact least u (List.mem_filter.mpr ⟨among,decide_eq_true near⟩)
      · omega
    have prompt := settle_prompt sound awake (by omega) before
    have arrived : (s.settle.arrive t).now = t := by
      rw [← arrive_moves calm]
      exact congrArg Prod.fst (arriving_dial calm t).1
    obtain ⟨later,still⟩ := ih (arrive_sound calm t) (arrive_awake prompt) arrived within.2
    have both : s.moves (s.settling ++ s.settle.arriving t) = s.settle.arrive t := by
      rw [moves_append,settling_moves sound,arrive_moves calm]
    rw [patient_append,both,moves_append,both,patient_append,settling_moves sound]
    exact ⟨⟨⟨settling_patient sound,arriving_patient prompt⟩,later⟩,still⟩
  | case3 now s t first without =>
    obtain ⟨kept,_⟩ := List.min?_eq_some_iff.mp first
    obtain ⟨among,within⟩ := List.mem_filter.mp kept
    have same : s.settle.now = s.now := congrArg Prod.fst (settle_dial sound)
    have later := timers_later among
    exact (without ⟨by omega,of_decide_eq_true within⟩).elim

theorem waiting_patient (sound : Sound s) (awake : s.Awake []) (ms : Nat) :
    s.Patient (s.waiting ms) ∧ (s.wait ms).Awake [] := by
  rw [← wait_moves sound]
  exact passing_patient sound awake rfl (Nat.le_add_right _ _)

theorem trigger_awake (s : Station) : s.trigger.Awake [] := by
  intro key x found
  rw [trigger_same] at found
  have known : key ∈ s.engine.sessions.keys :=
    List.mem_map.mpr ⟨x,SessionSet.find?_mem found,(SessionSet.find?_split found).1⟩
  exact .inr (.inl ((mem_wakeAll _ _ _).mpr (.inl (List.mem_map_of_mem known))))

end Station
end ModbusMaster
