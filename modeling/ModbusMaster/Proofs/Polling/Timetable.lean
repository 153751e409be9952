import ModbusMaster.Proofs.Polling.Cycles
import ModbusMaster.Proofs.Stack.Rounds
namespace ModbusMaster

-- Stations in virtual time, whose clock is never late: they poll their points at the
-- multiples of the intervals and at no other instants.

namespace Schedule
variable {s : Schedule} {now t us : Nat} {p : Poller}

def periodUs (s : Schedule) : Nat := s.tickMs*1000

def timed (s : Schedule) (us : Nat) : Schedule := {s with buckets:=s.buckets.map (Bucket.timed us)}

def pointsAt (s : Schedule) (t : Nat) : List Point :=
  (s.buckets.filter fun b => b.intervalMs*1000 ∣ t).flatMap (·.points)

-- The clock of a gateway, which last struck at the last full period.
def clockAt (s : Schedule) (now : Nat) : Option Poller :=
  if s.buckets.isEmpty then none else
    let last := now/s.periodUs*s.periodUs
    some ⟨s.timed last,last,last+s.periodUs⟩

theorem Regular.periodUs_pos (regular : Regular s) : 0 < s.periodUs := Nat.mul_pos regular.tickMs_pos (by decide)

theorem Regular.periodUs_dvd (regular : Regular s) {b : Bucket} (there : b ∈ s.buckets) : s.periodUs ∣ b.intervalMs*1000 :=
  Nat.mul_dvd_mul_right (regular.tickMs_dvd there) 1000

theorem timed_tickMs (s : Schedule) (us : Nat) : (s.timed us).tickMs = s.tickMs := by
  have same : (s.timed us).intervals = s.intervals := List.map_map
  unfold tickMs
  rw [same]
  rfl

theorem Regular.timed_zero (regular : Regular s) : s.timed 0 = s := by
  have each : s.buckets.map (Bucket.timed 0) = s.buckets := by
    refine (List.map_congr_left ?_).trans s.buckets.map_id
    intro b there
    exact (regular.founded b there).timed
  unfold timed
  rw [each]

theorem Regular.advance_timed (regular : Regular s) (ticked : s.periodUs ∣ us) :
    ((s.timed us).advance s.periodUs).1.flatMap (·.points) = s.pointsAt (us+s.periodUs) ∧
      ((s.timed us).advance s.periodUs).2 = s.timed (us+s.periodUs) := by
  constructor
  · have due : ∀ b ∈ s.buckets, ((Bucket.isDue · s.periodUs) ∘ Bucket.timed us) b =
        decide (b.intervalMs*1000 ∣ us+s.periodUs) := by
      intro b there
      rw [Bool.eq_iff_iff,decide_eq_true_iff]
      exact Bucket.isDue_timed (regular.founded b there).positive regular.periodUs_pos (regular.periodUs_dvd there) ticked
    simp only [advance,timed,pointsAt,List.filter_map,List.flatMap_map]
    rw [List.filter_congr due]
    rfl
  · simp only [advance,timed,List.map_map]
    congr 1
    refine List.map_congr_left ?_
    intro b there
    exact Bucket.advance_timed (regular.founded b there).positive (regular.periodUs_dvd there) ticked

theorem Regular.clockAt_zero (regular : Regular s) : Gateway.pollerOf s 0 = s.clockAt 0 := by
  unfold Gateway.pollerOf clockAt
  simp only [Nat.zero_div,Nat.zero_mul,regular.timed_zero]
  rfl

theorem pointsAt_empty (nobody : s.buckets.isEmpty = true) (t : Nat) : s.pointsAt t = [] := by
  unfold pointsAt
  rw [List.isEmpty_iff.mp nobody]
  rfl

theorem Regular.pointsAt_dvd (regular : Regular s) (other : ¬ s.periodUs ∣ t) : s.pointsAt t = [] := by
  unfold pointsAt
  rw [List.filter_eq_nil_iff.mpr]
  · rfl
  · intro b there ends
    exact other (Nat.dvd_trans (regular.periodUs_dvd there) (of_decide_eq_true ends))

theorem Regular.clockAt_next (regular : Regular s) (running : s.clockAt now = some p) : now < p.next := by
  unfold clockAt at running
  split at running
  · cases running
  · cases running
    exact Nat.lt_div_mul_add regular.periodUs_pos

theorem Regular.clockAt_still (regular : Regular s) (onward : now ≤ t) (early : ∀ p, s.clockAt now = some p → t < p.next) :
    s.clockAt t = s.clockAt now ∧ (now < t → s.pointsAt t = []) := by
  by_cases nobody : s.buckets.isEmpty = true
  · refine ⟨by simp [clockAt,nobody],fun _ => pointsAt_empty nobody t⟩
  · have below : t < now/s.periodUs*s.periodUs+s.periodUs := early _ (if_neg nobody)
    have full : now/s.periodUs*s.periodUs ≤ now := Nat.div_mul_le_self now s.periodUs
    have same : t/s.periodUs = now/s.periodUs :=
      Nat.div_eq_of_lt_le (Nat.le_trans full onward) (by rw [Nat.succ_mul]; exact below)
    refine ⟨by simp only [clockAt,same],?_⟩
    intro later
    apply regular.pointsAt_dvd
    intro divides
    have exact := Nat.div_mul_cancel divides
    rw [same] at exact
    omega

theorem Regular.clockAt_struck (regular : Regular s) (running : s.clockAt now = some p) :
    some (p.struck p.next) = s.clockAt p.next ∧
      (p.schedule.advance (p.next-p.last)).1.flatMap (·.points) = s.pointsAt p.next := by
  unfold clockAt at running
  split at running
  · cases running
  · rename_i some
    cases running
    generalize full : now/s.periodUs*s.periodUs = last
    have ticked : s.periodUs ∣ last := full ▸ Nat.dvd_mul_left _ _
    obtain ⟨points,schedule⟩ := regular.advance_timed ticked
    dsimp only
    rw [Nat.add_sub_cancel_left]
    refine ⟨?_,points⟩
    have whole : (last+s.periodUs)/s.periodUs*s.periodUs = last+s.periodUs :=
      Nat.div_mul_cancel (Nat.dvd_add ticked (Nat.dvd_refl _))
    unfold Poller.struck clockAt
    rw [if_neg (Nat.lt_irrefl _),if_neg some,whole]
    dsimp only
    rw [Nat.add_sub_cancel_left,schedule,timed_tickMs]
    rfl

theorem Regular.counted (regular : Regular s) (running : s.clockAt now = some p) :
    p.schedule.buckets.map (fun b => (b.intervalMs,b.fired)) =
      s.buckets.map fun b => (b.intervalMs,now/(b.intervalMs*1000)) := by
  unfold clockAt at running
  split at running
  · cases running
  · cases running
    refine List.map_map.trans (List.map_congr_left ?_)
    intro b there
    obtain ⟨m,whole⟩ := regular.periodUs_dvd there
    have rounded : now/s.periodUs*s.periodUs/(b.intervalMs*1000) = now/(b.intervalMs*1000) := by
      rw [whole,← Nat.div_div_eq_div_mul,Nat.mul_div_cancel _ regular.periodUs_pos,Nat.div_div_eq_div_mul]
    exact congrArg (b.intervalMs,·) rounded

end Schedule

namespace Station
variable {s u : Station} {schedule : Schedule} {ms ns : List Move} {target now t : Nat}

def polledAt (s : Station) (ms : List Move) (t : Nat) : List Point := ((s.polled ms).filter (·.1 = t)).map (·.2)

theorem polledAt_append (ms ns : List Move) (t : Nat) :
    s.polledAt (ms ++ ns) t = s.polledAt ms t ++ (s.moves ms).polledAt ns t := by
  unfold polledAt
  rw [polled_append,List.filter_append,List.map_append]

theorem polledAt_silent (silent : s.polled ms = []) (t : Nat) : s.polledAt ms t = [] := by
  unfold polledAt
  rw [silent]
  rfl

theorem polledAt_points {points : List Point} (once : s.polled ms = points.map (now,·)) (t : Nat) :
    s.polledAt ms t = if t = now then points else [] := by
  unfold polledAt
  rw [once,List.filter_map]
  split
  · rename_i same
    simp [Function.comp_def,same]
  · rename_i other
    simp [Function.comp_def,Ne.symm other]

-- A stretch of a run that polls by the schedule, each point at its instants.
structure Punctual (schedule : Schedule) (s : Station) (ms : List Move) (target : Nat) : Prop where
  onward : s.now ≤ target
  arrived : (s.moves ms).now = target
  clock : (s.moves ms).poller = schedule.clockAt target
  served : ∀ t, s.polledAt ms t = if s.now < t ∧ t ≤ target then schedule.pointsAt t else []

theorem Punctual.append (first : Punctual schedule s ms now) (reached : s.moves ms = u)
    (second : Punctual schedule u ns target) : Punctual schedule s (ms ++ ns) target := by
  subst reached
  have onward : now ≤ target := first.arrived ▸ second.onward
  refine ⟨Nat.le_trans first.onward onward,?_,?_,?_⟩
  · rw [moves_append,second.arrived]
  · rw [moves_append,second.clock]
  · intro t
    rw [polledAt_append,first.served,second.served,first.arrived]
    by_cases early : t ≤ now
    · rw [if_neg (fun late : now < t ∧ t ≤ target => Nat.not_lt.mpr early late.1),List.append_nil]
      refine if_congr ?_ rfl rfl
      exact ⟨fun within => ⟨within.1,Nat.le_trans early onward⟩,fun within => ⟨within.1,early⟩⟩
    · rw [if_neg (fun soon : s.now < t ∧ t ≤ now => early soon.2),List.nil_append]
      refine if_congr ?_ rfl rfl
      have before := first.onward
      omega

theorem punctual_dial (clock : s.poller = schedule.clockAt s.now) (dial : (s.moves ms).dial = s.dial)
    (silent : s.polled ms = []) : Punctual schedule s ms s.now := by
  refine ⟨Nat.le_refl _,congrArg Prod.fst dial,(congrArg Prod.snd dial).trans clock,?_⟩
  intro t
  rw [polledAt_silent silent,if_neg (fun within => Nat.not_le.mpr within.1 within.2)]

theorem punctual_clock (regular : schedule.Regular) (clock : s.poller = schedule.clockAt s.now) (onward : s.now ≤ target)
    (early : ∀ p, s.poller = some p → target < p.next) : Punctual schedule s [.clock target] target := by
  have still : ∀ t, s.now ≤ t → t ≤ target →
      schedule.clockAt t = schedule.clockAt s.now ∧ (s.now < t → schedule.pointsAt t = []) := by
    intro t later within
    apply regular.clockAt_still later
    intro p running
    exact Nat.lt_of_le_of_lt within (early p (clock.trans running))
  refine ⟨onward,rfl,clock.trans (still target onward (Nat.le_refl _)).1.symm,?_⟩
  intro t
  rw [polledAt_silent rfl]
  split
  · rename_i within
    exact ((still t (Nat.le_of_lt within.1) within.2).2 within.1).symm
  · rfl

theorem duePoints_clockAt (regular : schedule.Regular) (clock : s.poller = schedule.clockAt now) (onward : now < s.now)
    (early : ∀ p, s.poller = some p → s.now ≤ p.next) :
    s.poller.map (·.struck s.now) = schedule.clockAt s.now ∧ s.duePoints = schedule.pointsAt s.now := by
  unfold duePoints
  rw [clock] at early ⊢
  cases running : schedule.clockAt now with
  | none =>
    obtain ⟨same,nothing⟩ := regular.clockAt_still (Nat.le_of_lt onward) fun p found => by
      rw [running] at found
      cases found
    exact ⟨running.symm.trans same.symm,(nothing onward).symm⟩
  | some p =>
    dsimp only [Option.map_some]
    rcases Nat.lt_or_eq_of_le (early p running) with before | strikes
    · obtain ⟨same,nothing⟩ := regular.clockAt_still (Nat.le_of_lt onward) fun q found => by
        cases running.symm.trans found
        exact before
      rw [if_pos before,nothing onward,same,running,Poller.struck,if_pos before]
      exact ⟨rfl,rfl⟩
    · rw [strikes,if_neg (Nat.lt_irrefl _)]
      exact regular.clockAt_struck running

theorem punctual_arriving (sound : Sound s) (regular : schedule.Regular) (clock : s.poller = schedule.clockAt s.now)
    (onward : s.now < target) (early : ∀ p, s.poller = some p → target ≤ p.next) :
    Punctual schedule s (s.arriving target) target := by
  obtain ⟨dial,polled⟩ := arriving_dial sound target
  obtain ⟨struck,due⟩ := duePoints_clockAt (s:={s with now:=target}) regular clock onward early
  refine ⟨Nat.le_of_lt onward,congrArg Prod.fst dial,(congrArg Prod.snd dial).trans struck,?_⟩
  intro t
  rw [polledAt_points polled,due]
  rcases Nat.lt_trichotomy t target with before | rfl | behind
  · rw [if_neg (Nat.ne_of_lt before)]
    split
    · rename_i within
      refine ((regular.clockAt_still (Nat.le_of_lt within.1) ?_).2 within.1).symm
      intro p running
      exact Nat.lt_of_lt_of_le before (early p (clock.trans running))
    · rfl
  · rw [if_pos rfl,if_pos ⟨onward,Nat.le_refl _⟩]
  · rw [if_neg (Nat.ne_of_gt behind),if_neg fun within => Nat.not_le.mpr behind within.2]

theorem timers_ahead {t : Nat} (among : t ∈ s.timers) : s.now < t := by
  rcases List.mem_append.mp among with session | clock
  · exact of_decide_eq_true (List.mem_filter.mp session).2
  · exact of_decide_eq_true (List.mem_filter.mp clock).2

theorem strike_timers (regular : schedule.Regular) (clock : s.poller = schedule.clockAt s.now) {p : Poller}
    (running : s.poller = some p) (soon : p.next ≤ target) : p.next ∈ s.timers.filter (· ≤ target) := by
  have ahead : s.now < p.next := regular.clockAt_next (clock.symm.trans running)
  refine List.mem_filter.mpr ⟨?_,decide_eq_true soon⟩
  refine List.mem_append_right _ (List.mem_filter.mpr ⟨?_,decide_eq_true ahead⟩)
  rw [running]
  exact List.mem_singleton.mpr rfl

theorem settle_clock (sound : Sound s) (clock : s.poller = schedule.clockAt s.now) :
    Punctual schedule s s.settling s.now ∧ s.settle.now = s.now ∧ s.settle.poller = schedule.clockAt s.settle.now := by
  have now : s.settle.now = s.now := congrArg Prod.fst (settle_dial sound)
  have poller : s.settle.poller = s.poller := congrArg Prod.snd (settle_dial sound)
  refine ⟨?_,now,?_⟩
  · exact punctual_dial clock (moves_dial sound fun _ => settling_calm sound) (settling_polled sound)
  · rw [poller,now,clock]

theorem punctual_passing (sound : Sound s) (regular : schedule.Regular) (clock : s.poller = schedule.clockAt s.now)
    (onward : s.now ≤ target) (same : s.now = now) : Punctual schedule s (passing target now s) target := by
  fun_induction passing target now s with
  | case1 now s nothing =>
    obtain ⟨settled,still,clock⟩ := settle_clock sound clock
    refine settled.append (settling_moves sound) (punctual_clock regular clock (still ▸ onward) ?_)
    intro p running
    apply Nat.lt_of_not_le
    intro soon
    have among := strike_timers regular clock running soon
    rw [List.min?_eq_none_iff.mp nothing] at among
    cases among
  | case2 now s t first within ih =>
    obtain ⟨settled,still,clock⟩ := settle_clock sound clock
    obtain ⟨_,least⟩ := List.min?_eq_some_iff.mp first
    have calm := settle_sound sound
    have stroke : Punctual schedule s.settle (s.settle.arriving t) t := by
      refine punctual_arriving calm regular clock (by omega) ?_
      intro p running
      by_cases soon : p.next ≤ target
      · exact least _ (strike_timers regular clock running soon)
      · omega
    have reached : (s.settle.arrive t).now = t := arrive_moves calm t ▸ stroke.arrived
    have struck : (s.settle.arrive t).poller = schedule.clockAt (s.settle.arrive t).now := by
      rw [reached,← arrive_moves calm t]
      exact stroke.clock
    refine (settled.append (settling_moves sound) stroke).append ?_ (ih (arrive_sound calm t) struck (by omega) reached)
    rw [moves_append,settling_moves sound,arrive_moves calm]
  | case3 now s t first without =>
    obtain ⟨_,still,_⟩ := settle_clock sound clock
    obtain ⟨among,_⟩ := List.min?_eq_some_iff.mp first
    obtain ⟨here,before⟩ := List.mem_filter.mp among
    have ahead := timers_ahead here
    exact absurd ⟨by omega,of_decide_eq_true before⟩ without

end Station

end ModbusMaster
