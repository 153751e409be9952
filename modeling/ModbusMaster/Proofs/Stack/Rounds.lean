import ModbusMaster.Proofs.Stack.Closing
import ModbusMaster.Proofs.Stack.Clock
namespace ModbusMaster

def Poller.struck (p : Poller) (now : Nat) : Poller :=
  if now < p.next then p else
    let schedule := (p.schedule.advance (now-p.last)).2
    ⟨schedule,now,now+schedule.tickMs*1000⟩

namespace Station
variable {s : Station} {ready : List Task}

-- The rounds in which a station lets its tasks run are runs too, and so are the ways to
-- end its workers, its sessions and all of it. Their moves can be told beforehand.

def handling : Nat → Station → List Move
  | 0,_ => []
  | n+1,s => match s.intents.takeNow with
    | (none,q) => [.arrange s.agenda q s.writers s.poller]
    | (some raw,q) =>
      .arrange s.agenda q s.writers s.poller::.handle raw::handling n (handle {s with intents:=q} raw).2

def writing (s : Station) (w : Nat) : List Move :=
  let (pool,q) := s.writers.resume s.intents w
  if s.stopped then [.arrange s.agenda q (pool.leave w) s.poller]
  else if s.writers.isParked w then []
  else .arrange s.agenda q (pool.park w) s.poller::handling q.permits {s with writers:=pool.park w,intents:=q}

def working (s : Station) : Task → List Move
  | .session key => [.serve key]
  | .responder w => [.respond w]
  | .writer w => s.writing w

def workingAll : Station → List Task → List Move
  | _,[] => []
  | s,t::ready => s.working t ++ (s.runTask t).workingAll ready

def rounding (s : Station) : List Move :=
  .arrange [] s.intents s.writers s.poller::workingAll {s with agenda:=[]} s.agenda

def settling (s : Station) : List Move := s.rounding ++ s.round.rounding ++ s.round.round.rounding

def ending (s : Station) : List Move :=
  .halt::.arrange s.trigger.agenda s.intents s.writers s.poller::s.trigger.settling ++ [.clear]

def dismissed (s : Station) : Station :=
  wakeAll {s with stopped:=true,poller:=none} (s.responders.all.map Task.responder ++ s.writers.all.map Task.writer)

def dismissing (s : Station) : List Move :=
  .dismiss::.arrange s.dismissed.agenda s.intents s.writers none::s.dismissed.settling

theorem move_arrange {agenda : List Task} (known : ∀ w, .responder w ∈ agenda → w < s.responders.spawned)
    (intents : BoundedQueue String) (writers : Pool) (poller : Option Poller) :
    s.move (.arrange agenda intents writers poller) =
      {s with agenda:=agenda,intents:=intents,writers:=writers,poller:=poller} := by
  have all : agenda.filter s.knows = agenda := by
    apply List.filter_eq_self.mpr
    intro t member
    cases t with
    | responder w => exact decide_eq_true (known w member)
    | _ => rfl
  simp only [move,all]

theorem sound_arrange (sound : Sound s) {agenda : List Task} (known : ∀ w, .responder w ∈ agenda → w < s.responders.spawned)
    (intents : BoundedQueue String) (writers : Pool) (poller : Option Poller) :
    Sound {s with agenda:=agenda,intents:=intents,writers:=writers,poller:=poller} := ⟨sound.engine,sound.staffs,known⟩

theorem handling_moves (sound : Sound s) (n : Nat) : s.moves (handling n s) = handleQueued n s := by
  induction n generalizing s with
  | zero => rfl
  | succ n ih =>
    unfold handling handleQueued
    cases taken : s.intents.takeNow with
    | mk first q =>
      have arranged := move_arrange sound.ready q s.writers s.poller
      cases first with
      | none => exact arranged
      | some raw =>
        simp only [moves,arranged]
        have sound := sound_arrange sound sound.ready q s.writers s.poller
        exact ih (move_sound sound (.handle raw))

theorem writing_moves (sound : Sound s) (w : Nat) : s.moves (s.writing w) = s.runWriter w := by
  unfold writing runWriter
  dsimp only
  split
  · exact move_arrange sound.ready _ _ _
  · split
    · rfl
    · simp only [moves]
      rw [move_arrange sound.ready]
      exact handling_moves (sound_arrange sound sound.ready _ _ _) _

theorem working_moves (sound : Sound s) {t : Task} (known : ∀ w, t = .responder w → w < s.responders.spawned) :
    s.moves (s.working t) = s.runTask t := by
  cases t with
  | session key => rfl
  | responder w =>
    simp only [working,moves,move]
    rw [if_pos (known w rfl)]
    rfl
  | writer w => exact writing_moves sound w

theorem workingAll_moves (sound : Sound s) (known : ∀ w, .responder w ∈ ready → w < s.responders.spawned) :
    s.moves (s.workingAll ready) = ready.foldl runTask s := by
  induction ready generalizing s with
  | nil => rfl
  | cons t ready ih =>
    have first := working_moves sound (t:=t) fun w same => known w (by simp [same])
    rw [workingAll,moves_append,first,List.foldl_cons]
    refine ih (first ▸ moves_sound sound _) ?_
    intro w member
    have grown := moves_spawned sound (s.working t)
    rw [first] at grown
    exact Nat.lt_of_lt_of_le (known w (List.mem_cons_of_mem _ member)) grown

theorem rounding_moves (sound : Sound s) : s.moves s.rounding = s.round := by
  have nobody : ∀ w, .responder w ∈ ([] : List Task) → w < s.responders.spawned := fun w member => by cases member
  simp only [rounding,moves]
  rw [move_arrange nobody]
  exact workingAll_moves (sound_arrange sound nobody _ _ _) sound.ready

theorem round_sound (sound : Sound s) : Sound s.round := rounding_moves sound ▸ moves_sound sound _

theorem settling_moves (sound : Sound s) : s.moves s.settling = s.settle := by
  unfold settling settle
  rw [moves_append,moves_append,rounding_moves sound,rounding_moves (round_sound sound),
    rounding_moves (round_sound (round_sound sound))]

def taskMove? : Task → Option Move
  | .session key => some (.serve key)
  | .responder w => some (.respond w)
  | .writer _ => none

theorem workingAll_mem {t : Task} {m : Move} (among : t ∈ ready) (runs : taskMove? t = some m) : m ∈ s.workingAll ready := by
  induction ready generalizing s with
  | nil => cases among
  | cons u ready ih =>
    refine List.mem_append.mpr ?_
    rcases List.mem_cons.mp among with rfl | later
    · left
      cases t with
      | writer w => cases runs
      | _ => cases runs; exact List.mem_singleton.mpr rfl
    · exact .inr (ih later)

theorem settling_mem {t : Task} {m : Move} (among : t ∈ s.agenda) (runs : taskMove? t = some m) : m ∈ s.settling :=
  List.mem_append_left _ (List.mem_append_left _ (List.mem_cons_of_mem _ (workingAll_mem among runs)))

theorem handling_calm (sound : Sound s) (n : Nat) {m : Move} (among : m ∈ handling n s) : m.calm s.poller := by
  induction n generalizing s with
  | zero => cases among
  | succ n ih =>
    unfold handling at among
    cases taken : s.intents.takeNow with
    | mk first q =>
      rw [taken] at among
      cases first with
      | none => cases List.mem_singleton.mp among; rfl
      | some raw =>
        have sound := sound_arrange sound sound.ready q s.writers s.poller
        have handled := handle_attempts sound.engine raw
        have poller : (handle {s with intents:=q} raw).2.poller = s.poller := congrArg Prod.snd handled.dial
        rcases List.mem_cons.mp among with rfl | among
        · rfl
        · rcases List.mem_cons.mp among with rfl | later
          · trivial
          · rw [← poller]
            exact ih (move_sound sound (.handle raw)) later

theorem writing_calm (sound : Sound s) (w : Nat) {m : Move} (among : m ∈ s.writing w) : m.calm s.poller := by
  unfold writing at among
  dsimp only at among
  split at among
  · cases List.mem_singleton.mp among; rfl
  · split at among
    · cases among
    · rcases List.mem_cons.mp among with rfl | later
      · rfl
      · have arranged := sound_arrange sound sound.ready (s.writers.resume s.intents w).2
          ((s.writers.resume s.intents w).1.park w) s.poller
        exact handling_calm arranged _ later

theorem working_calm (sound : Sound s) (t : Task) {m : Move} (among : m ∈ s.working t) : m.calm s.poller := by
  cases t with
  | writer w => exact writing_calm sound w among
  | _ => cases List.mem_singleton.mp among; trivial

theorem workingAll_calm (sound : Sound s) (known : ∀ w, .responder w ∈ ready → w < s.responders.spawned) {m : Move}
    (among : m ∈ s.workingAll ready) : m.calm s.poller := by
  induction ready generalizing s with
  | nil => cases among
  | cons t ready ih =>
    rcases List.mem_append.mp among with now | later
    · exact working_calm sound t now
    · have first := working_moves sound (t:=t) fun w same => known w (by simp [same])
      have dial := moves_dial sound fun m => working_calm sound t (m:=m)
      have grown := moves_spawned sound (s.working t)
      rw [first] at dial grown
      have poller : (s.runTask t).poller = s.poller := congrArg Prod.snd dial
      rw [← poller]
      refine ih (first ▸ moves_sound sound _) ?_ later
      intro w member
      exact Nat.lt_of_lt_of_le (known w (List.mem_cons_of_mem _ member)) grown

theorem rounding_calm (sound : Sound s) {m : Move} (among : m ∈ s.rounding) : m.calm s.poller := by
  have nobody : ∀ w, .responder w ∈ ([] : List Task) → w < s.responders.spawned := fun w member => by cases member
  rcases List.mem_cons.mp among with rfl | later
  · rfl
  · exact workingAll_calm (sound_arrange sound nobody _ _ _) sound.ready later

theorem round_dial (sound : Sound s) : s.round.dial = s.dial := by
  rw [← rounding_moves sound]
  exact moves_dial sound fun m => rounding_calm sound (m:=m)

theorem settling_calm (sound : Sound s) {m : Move} (among : m ∈ s.settling) : m.calm s.poller := by
  have once : s.round.poller = s.poller := congrArg Prod.snd (round_dial sound)
  have twice : s.round.round.poller = s.round.poller := congrArg Prod.snd (round_dial (round_sound sound))
  rcases List.mem_append.mp among with among | third
  · rcases List.mem_append.mp among with first | second
    · exact rounding_calm sound first
    · rw [← once]
      exact rounding_calm (round_sound sound) second
  · rw [← once,← twice]
    exact rounding_calm (round_sound (round_sound sound)) third

theorem settle_sound (sound : Sound s) : Sound s.settle := settling_moves sound ▸ moves_sound sound _

theorem settle_dial (sound : Sound s) : s.settle.dial = s.dial := by
  rw [← settling_moves sound]
  exact moves_dial sound fun m => settling_calm sound (m:=m)

theorem settling_polled (sound : Sound s) : s.polled s.settling = [] :=
  polled_silent fun _ among => (settling_calm sound among).silent

theorem settling_start (sound : Sound s) : .start ∉ s.settling := fun among => (settling_calm sound among).elim

theorem trigger_same (s : Station) : s.trigger = {s with engine:=s.engine.halt,agenda:=s.trigger.agenda} := by
  unfold trigger
  exact wakeAll_same _ _

theorem trigger_sound (sound : Sound s) : Sound s.trigger := by
  rw [trigger_same]
  refine ⟨Engine.halt_sound sound.engine,sound.staffs,?_⟩
  intro w member
  rcases (mem_wakeAll _ _ _).mp member with session | old
  · obtain ⟨key,_,wrong⟩ := List.mem_map.mp session
    cases wrong
  · exact sound.ready w old

theorem settle_over (sound : Sound s) : s.trigger.settle.engine.Over := by
  rw [← settling_moves (trigger_sound sound)]
  intro x member
  refine Classical.byContradiction ?_
  intro live
  have halted : s.trigger.engine.sessions.halted = true := by rw [trigger_same]; rfl
  obtain ⟨old,unserved⟩ := moves_halted (trigger_sound sound) halted (settling_start (trigger_sound sound)) x member live
  refine unserved (settling_mem (t:=.session x.key) ?_ rfl)
  have known : x.key ∈ s.engine.sessions.keys := by
    rw [trigger_same] at old
    exact List.mem_map_of_mem old
  exact (mem_wakeAll _ _ _).mpr (.inl (List.mem_map_of_mem known))

theorem move_clear (finished : s.engine.Over) : s.move .clear = {s with engine:=s.engine.clear} :=
  if_pos (s.over_iff.mpr finished)

theorem ending_moves (sound : Sound s) : s.moves s.ending = s.shutdown := by
  have triggered : (s.move .halt).move (.arrange s.trigger.agenda s.intents s.writers s.poller) = s.trigger := by
    refine (move_arrange ?_ _ _ _).trans (trigger_same s).symm
    have ready := (trigger_sound sound).ready
    rw [trigger_same] at ready
    exact ready
  simp only [ending,List.cons_append,moves,moves_append,triggered]
  rw [settling_moves (trigger_sound sound),move_clear (settle_over sound)]
  rfl

theorem dismissed_same (s : Station) :
    s.dismissed = {s with stopped:=true,poller:=none,agenda:=s.dismissed.agenda} := wakeAll_same _ _

theorem dismissed_sound (sound : Sound s) : Sound s.dismissed := by
  rw [dismissed_same]
  refine ⟨sound.engine,sound.staffs,?_⟩
  intro w member
  rcases (mem_wakeAll _ _ _).mp member with woken | old
  · rcases List.mem_append.mp woken with responder | writer
    · obtain ⟨v,among,same⟩ := List.mem_map.mp responder
      cases same
      exact List.mem_range.mp among
    · obtain ⟨v,_,wrong⟩ := List.mem_map.mp writer
      cases wrong
  · exact sound.ready w old

theorem dismissing_moves (sound : Sound s) : s.moves s.dismissing = s.stopWorkers.2 := by
  have told : (s.move .dismiss).move (.arrange s.dismissed.agenda s.intents s.writers none) = s.dismissed := by
    refine (move_arrange ?_ _ _ _).trans (dismissed_same s).symm
    have ready := (dismissed_sound sound).ready
    rw [dismissed_same] at ready
    exact ready
  simp only [dismissing,moves,told]
  exact settling_moves (dismissed_sound sound)

theorem stopWorkers_dial (sound : Sound s) : s.stopWorkers.2.dial = (s.now,none) := by
  have dismissed : s.dismissed.dial = (s.now,none) := by
    rw [dismissed_same]
    rfl
  exact (settle_dial (dismissed_sound sound)).trans dismissed

theorem shutdown_dial (sound : Sound s) : s.shutdown.dial = s.dial := by
  have triggered : s.trigger.dial = s.dial := by
    rw [trigger_same]
    rfl
  exact (settle_dial (trigger_sound sound)).trans triggered

theorem stopWorkers_staff (sound : Sound s) : s.stopWorkers.2.responders.staff = [] ∧ s.stopWorkers.2.stopped = true := by
  have stopped : s.dismissed.stopped = true := by rw [dismissed_same]
  have same : s.dismissed.responders = s.responders := by rw [dismissed_same]
  change s.dismissed.settle.responders.staff = [] ∧ s.dismissed.settle.stopped = true
  rw [← settling_moves (dismissed_sound sound)]
  obtain ⟨stays,gone⟩ := moves_dismissed (dismissed_sound sound) stopped s.dismissed.settling
  refine ⟨List.eq_nil_iff_forall_not_mem.mpr ?_,stays⟩
  intro v member
  obtain ⟨old,idle⟩ := gone v member
  rw [same] at old
  refine idle (settling_mem (t:=.responder v) ?_ rfl)
  have known : v ∈ s.responders.all := List.mem_range.mpr (sound.staffs.known v old)
  exact (mem_wakeAll _ _ _).mpr (.inl (List.mem_append_left _ (List.mem_map_of_mem known)))

def submitting (s : Station) (raw : String) : List Move :=
  match s.intents.append? raw with
  | none => []
  | some q => [.arrange (s.submit raw).2.agenda (s.writers.grant q).2.1 (s.writers.grant q).1 s.poller]

theorem submit_moves (sound : Sound s) (raw : String) : s.moves (s.submitting raw) = (s.submit raw).2 := by
  unfold submitting submit
  cases s.intents.append? raw with
  | none => rfl
  | some q =>
    dsimp only
    rw [wakeAll_same]
    refine move_arrange ?_ _ _ _
    intro w member
    rcases (mem_wakeAll _ _ _).mp member with writer | old
    · obtain ⟨v,_,wrong⟩ := List.mem_map.mp writer
      cases wrong
    · exact sound.ready w old

theorem submitting_calm (s : Station) (raw : String) : ∀ m ∈ s.submitting raw, m.calm s.poller := by
  intro m among
  unfold submitting at among
  cases room : s.intents.append? raw with
  | none => simp [room] at among
  | some q =>
    rw [room] at among
    cases List.mem_singleton.mp among
    rfl

-- The passing of time is a run as well: what is ready, each instant with the reads that
-- are due at it, and so on to the last.

theorem pollPoints_moves (points : List Point) : s.moves (points.map .poll) = (s.pollPoints points).2 := by
  induction points generalizing s with
  | nil => rfl
  | cons p points ih => exact ih

theorem pollBuckets_moves (due : List Bucket) :
    s.moves (due.flatMap fun b => b.points.map .poll) = due.foldl (fun s b => (s.pollPoints b.points).2) s := by
  induction due generalizing s with
  | nil => rfl
  | cons b due ih => rw [List.flatMap_cons,moves_append,pollPoints_moves,ih,List.foldl_cons]

def duePoints (s : Station) : List Point :=
  match s.poller with
  | none => []
  | some p => if s.now < p.next then [] else (p.schedule.advance (s.now-p.last)).1.flatMap (·.points)

def polling (s : Station) : List Move :=
  .arrange s.agenda s.intents s.writers (s.poller.map (·.struck s.now))::s.duePoints.map .poll

theorem polling_moves (sound : Sound s) : s.moves s.polling = s.poll := by
  have idle : s.moves [.arrange s.agenda s.intents s.writers s.poller] = s := move_arrange sound.ready _ _ _
  unfold polling poll duePoints
  cases held : s.poller with
  | none =>
    rw [held] at idle
    exact idle
  | some p =>
    dsimp only [Option.map_some,Poller.struck]
    split
    · rw [held] at idle
      exact idle
    · rw [moves,move_arrange sound.ready,List.map_flatMap]
      exact pollBuckets_moves _

theorem poll_duePoints (sound : Sound s) : ∃ poller,
    s.moves (.arrange s.agenda s.intents s.writers poller::s.duePoints.map .poll) = s.poll := ⟨_,polling_moves sound⟩

def roused (s : Station) (t : Nat) : Station := wakeAll {s with now:=t} ((s.engine.sessions.due t).map .session)

theorem roused_same (s : Station) (t : Nat) : s.roused t = {s with now:=t,agenda:=(s.roused t).agenda} := wakeAll_same _ _

theorem roused_sound (sound : Sound s) (t : Nat) : Sound (s.roused t) := by
  rw [roused_same]
  refine ⟨sound.engine,sound.staffs,?_⟩
  intro w member
  rcases (mem_wakeAll _ _ _).mp member with session | old
  · obtain ⟨key,_,wrong⟩ := List.mem_map.mp session
    cases wrong
  · exact sound.ready w old

def arriving (s : Station) (t : Nat) : List Move :=
  .clock t::.arrange (s.roused t).agenda s.intents s.writers s.poller::(s.roused t).polling

theorem roused_moves (sound : Sound s) (t : Nat) :
    s.moves [.clock t,.arrange (s.roused t).agenda s.intents s.writers s.poller] = s.roused t := by
  refine (move_arrange ?_ _ _ _).trans (roused_same s t).symm
  have ready := (roused_sound sound t).ready
  rw [roused_same] at ready
  exact ready

theorem arrive_moves (sound : Sound s) (t : Nat) : s.moves (s.arriving t) = s.arrive t := by
  rw [show s.arriving t = [.clock t,.arrange (s.roused t).agenda s.intents s.writers s.poller] ++ (s.roused t).polling
    from rfl,moves_append,roused_moves sound]
  exact polling_moves (roused_sound sound t)

theorem polling_dial (sound : Sound s) : (s.moves s.polling).dial = (s.now,s.poller.map (·.struck s.now)) ∧
    s.polled s.polling = s.duePoints.map (s.now,·) := by
  have arranged : s.move (.arrange s.agenda s.intents s.writers (s.poller.map (·.struck s.now))) =
      {s with poller:=s.poller.map (·.struck s.now)} := move_arrange sound.ready _ _ _
  obtain ⟨dial,polled⟩ := poll_moves (sound_arrange sound sound.ready s.intents s.writers (s.poller.map (·.struck s.now)))
    s.duePoints
  unfold polling
  constructor
  · rw [moves,arranged,dial]
    rfl
  · rw [Station.polled,arranged,polled]
    rfl

theorem arriving_dial (sound : Sound s) (t : Nat) : (s.moves (s.arriving t)).dial = (t,s.poller.map (·.struck t)) ∧
    s.polled (s.arriving t) = ({s with now:=t} : Station).duePoints.map (t,·) := by
  have same : s.arriving t = [.clock t,.arrange (s.roused t).agenda s.intents s.writers s.poller] ++ (s.roused t).polling := rfl
  obtain ⟨dial,polled⟩ := polling_dial (roused_sound sound t)
  have now : (s.roused t).now = t := by rw [roused_same]
  have poller : (s.roused t).poller = s.poller := by rw [roused_same]
  have due : (s.roused t).duePoints = ({s with now:=t} : Station).duePoints := by rw [roused_same]; rfl
  constructor
  · rw [same,moves_append,roused_moves sound,dial,now,poller]
  · rw [same,polled_append,roused_moves sound,polled,now,due]
    rfl

theorem arrive_sound (sound : Sound s) (t : Nat) : Sound (s.arrive t) := arrive_moves sound t ▸ moves_sound sound _

def passing (target now : Nat) (s : Station) : List Move :=
  match (s.settle.timers.filter (· ≤ target)).min? with
  | none => s.settling ++ [.clock target]
  | some t =>
    if _h : now < t ∧ t ≤ target then s.settling ++ s.settle.arriving t ++ passing target t (s.settle.arrive t)
    else s.settling ++ [.clock target]
  termination_by target-now

theorem pass_moves (sound : Sound s) (target now : Nat) : s.moves (passing target now s) = pass target now s := by
  fun_induction passing target now s with
  | case1 now s nothing =>
    unfold pass
    dsimp only
    rw [nothing,moves_append,settling_moves sound]
    rfl
  | case2 now s t first within ih =>
    have calm := settle_sound sound
    unfold pass
    dsimp only
    rw [first,moves_append,moves_append,settling_moves sound,arrive_moves calm,ih (arrive_sound calm t)]
    dsimp only
    rw [dif_pos within]
  | case3 now s t first without =>
    unfold pass
    dsimp only
    rw [first,moves_append,settling_moves sound]
    dsimp only
    rw [dif_neg without]
    rfl

def waiting (s : Station) (ms : Nat) : List Move := passing (s.now+ms*1000) s.now s

theorem wait_moves (sound : Sound s) (ms : Nat) : s.moves (s.waiting ms) = s.wait ms := pass_moves sound _ _

end Station
end ModbusMaster
