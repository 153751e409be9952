import Mathlib.Algebra.GroupWithZero.Nat
import Mathlib.Data.List.Induction
import ModbusMaster.Proofs.Polling.Buckets
namespace ModbusMaster.Schedule
variable {s : Schedule} {b : Bucket} {past gap : List Nat} {us tick : Nat}

-- When the buckets of a schedule are due while time passes.

def after (s : Schedule) (past : List Nat) : Schedule := past.foldl (fun s us => (s.advance us).2) s

def due (s : Schedule) (us : Nat) : List Nat := (s.advance us).1.map (·.intervalMs)

def Fires (s : Schedule) (interval : Nat) (past : List Nat) (us : Nat) : Prop := interval ∈ (s.after past).due us

def Begins (s : Schedule) (interval : Nat) (past : List Nat) : Prop :=
  past = [] ∨ ∃ earlier us, past = earlier ++ [us] ∧ s.Fires interval earlier us

def Waits (s : Schedule) (interval : Nat) (past gap : List Nat) : Prop :=
  ∀ early us late, gap = early ++ us::late → ¬ s.Fires interval (past ++ early) us

def Bucket.after (past : List Nat) (b : Bucket) : Bucket := past.foldl (fun b us => Bucket.advance us b) b

theorem Bucket.isDue_iff : Bucket.isDue b us = true ↔ b.intervalMs*1000 ≤ b.elapsedUs+us := decide_eq_true_iff

theorem Bucket.advance_due (due : Bucket.isDue b us = true) :
    Bucket.advance us b = {b with elapsedUs:=0,fired:=b.fired+1} := if_pos due

theorem Bucket.advance_idle (idle : ¬ Bucket.isDue b us = true) :
    Bucket.advance us b = {b with elapsedUs:=b.elapsedUs+us} := if_neg idle

theorem Bucket.advance_intervalMs (us : Nat) (b : Bucket) : (Bucket.advance us b).intervalMs = b.intervalMs := by
  unfold Bucket.advance
  split <;> rfl

theorem Bucket.after_append (past gap : List Nat) (b : Bucket) :
    Bucket.after (past ++ gap) b = Bucket.after gap (Bucket.after past b) := List.foldl_append

theorem Bucket.after_intervalMs (past : List Nat) (b : Bucket) : (Bucket.after past b).intervalMs = b.intervalMs := by
  unfold Bucket.after
  induction past generalizing b with
  | nil => rfl
  | cons us past ih => exact (ih (Bucket.advance us b)).trans (Bucket.advance_intervalMs us b)

theorem after_buckets (s : Schedule) (past : List Nat) : (s.after past).buckets = s.buckets.map (Bucket.after past) := by
  unfold after
  induction past generalizing s with
  | nil => exact s.buckets.map_id.symm
  | cons us past ih =>
    refine (ih (s.advance us).2).trans ?_
    exact List.map_map

theorem due_after (s : Schedule) (past : List Nat) (us : Nat) : (s.after past).due us =
    (s.buckets.filter fun b => Bucket.isDue (Bucket.after past b) us).map (·.intervalMs) := by
  unfold due advance
  rw [after_buckets,List.filter_map,List.map_map]
  refine List.map_congr_left ?_
  intro b _
  exact Bucket.after_intervalMs past b

theorem Regular.fires_iff (regular : Regular s) (there : b ∈ s.buckets) :
    s.Fires b.intervalMs past us ↔ Bucket.isDue (Bucket.after past b) us = true := by
  unfold Fires
  rw [due_after]
  constructor
  · intro fires
    obtain ⟨c,among,same⟩ := List.mem_map.mp fires
    obtain ⟨here,due⟩ := List.mem_filter.mp among
    rw [← regular.unique here there same]
    exact due
  · intro due
    exact List.mem_map_of_mem (List.mem_filter.mpr ⟨there,due⟩)

theorem Regular.alone (regular : Regular s) (there : b ∈ s.buckets) : Regular ⟨s.floorMs,[b]⟩ := by
  refine ⟨regular.floor,List.pairwise_singleton _ _,?_⟩
  intro c only
  rw [List.mem_singleton.mp only]
  exact regular.founded b there

theorem due_ascending (regular : Regular s) (past : List Nat) (us : Nat) : ((s.after past).due us).Pairwise (· < ·) := by
  rw [due_after]
  exact regular.growing.sublist (List.filter_sublist.map _)

-- Time is counted from the last time the bucket was due, and is short of its interval.

theorem Bucket.advance_elapsed (positive : 0 < b.intervalMs) (us : Nat) :
    (Bucket.advance us b).elapsedUs < (Bucket.advance us b).intervalMs*1000 := by
  by_cases due : Bucket.isDue b us = true
  · rw [Bucket.advance_due due]
    exact Nat.mul_pos positive (by decide)
  · rw [Bucket.advance_idle due]
    exact Nat.lt_of_not_le fun late => due (Bucket.isDue_iff.mpr late)

theorem Bucket.after_elapsed {floor : Nat} (founded : Founded floor b) (past : List Nat) :
    (Bucket.after past b).elapsedUs < b.intervalMs*1000 := by
  induction past using List.reverseRecOn with
  | nil =>
    change b.elapsedUs < _
    rw [founded.fresh.1]
    exact Nat.mul_pos founded.positive (by decide)
  | append_singleton past us _ =>
    rw [Bucket.after_append]
    have short := Bucket.advance_elapsed (b:=Bucket.after past b) ((Bucket.after_intervalMs past b).symm ▸ founded.positive) us
    rw [Bucket.advance_intervalMs,Bucket.after_intervalMs] at short
    exact short

theorem Regular.begins_elapsed (regular : Regular s) (there : b ∈ s.buckets) (begins : s.Begins b.intervalMs past) :
    (Bucket.after past b).elapsedUs = 0 := by
  rcases begins with rfl | ⟨earlier,us,rfl,fires⟩
  · exact (regular.founded b there).fresh.1
  · rw [Bucket.after_append]
    change (Bucket.advance us (Bucket.after earlier b)).elapsedUs = 0
    rw [Bucket.advance_due ((regular.fires_iff there).mp fires)]

theorem Waits.init {interval : Nat} (waits : s.Waits interval past (gap ++ [us])) :
    s.Waits interval past gap ∧ ¬ s.Fires interval (past ++ gap) us := by
  refine ⟨?_,waits gap us [] rfl⟩
  intro early v late same
  refine waits early v (late ++ [us]) ?_
  rw [same,List.append_assoc,List.cons_append]

theorem Regular.waits_elapsed (regular : Regular s) (there : b ∈ s.buckets) (begins : s.Begins b.intervalMs past)
    (waits : s.Waits b.intervalMs past gap) : (Bucket.after (past ++ gap) b).elapsedUs = gap.sum := by
  induction gap using List.reverseRecOn with
  | nil =>
    rw [List.append_nil]
    exact regular.begins_elapsed there begins
  | append_singleton gap us ih =>
    obtain ⟨before,idle⟩ := waits.init
    have counted := ih before
    rw [← List.append_assoc,Bucket.after_append]
    change (Bucket.advance us (Bucket.after (past ++ gap) b)).elapsedUs = _
    rw [Bucket.advance_idle fun due => idle ((regular.fires_iff there).mpr due),List.sum_append,List.sum_singleton,
      ← counted]

theorem Regular.cycle (regular : Regular s) (there : b ∈ s.buckets) (begins : s.Begins b.intervalMs past)
    (waits : s.Waits b.intervalMs past gap) (fires : s.Fires b.intervalMs (past ++ gap) us) :
    b.intervalMs*1000 ≤ gap.sum+us ∧ gap.sum+us < b.intervalMs*1000+us := by
  have counted := regular.waits_elapsed there begins waits
  have short := Bucket.after_elapsed (regular.founded b there) (past ++ gap)
  have late := Bucket.isDue_iff.mp ((regular.fires_iff there).mp fires)
  rw [Bucket.after_intervalMs] at late
  omega

-- By a clock that divides the interval a bucket is never late: it is where the time that
-- has passed would have it.

theorem lap {cycle : Nat} (running : 0 < cycle) (whole : tick ∣ cycle) (ticked : tick ∣ us) :
    (us%cycle+tick = cycle ∧ (us+tick)%cycle = 0 ∧ (us+tick)/cycle = us/cycle+1) ∨
      (us%cycle+tick < cycle ∧ (us+tick)%cycle = us%cycle+tick ∧ (us+tick)/cycle = us/cycle) := by
  have split : us = cycle*(us/cycle)+us%cycle := (Nat.div_add_mod us cycle).symm
  have below : us%cycle < cycle := Nat.mod_lt us running
  have left : tick ∣ cycle-us%cycle := Nat.dvd_sub whole ((Nat.dvd_mod_iff whole).mpr ticked)
  have room : tick ≤ cycle-us%cycle := Nat.le_of_dvd (Nat.sub_pos_of_lt below) left
  rcases Nat.eq_or_lt_of_le room with last | early
  · have sum : us%cycle+tick = cycle := by omega
    have round : us+tick = cycle*(us/cycle+1) := by rw [Nat.mul_succ]; omega
    refine .inl ⟨sum,?_,?_⟩
    · rw [round,Nat.mul_mod_right]
    · rw [round,Nat.mul_div_cancel_left _ running]
  · have sum : us%cycle+tick < cycle := by omega
    have round : us+tick = cycle*(us/cycle)+(us%cycle+tick) := by omega
    refine .inr ⟨sum,?_,?_⟩
    · rw [round,Nat.mul_add_mod,Nat.mod_eq_of_lt sum]
    · rw [round,Nat.mul_add_div running,Nat.div_eq_of_lt sum,Nat.add_zero]

def Bucket.timed (us : Nat) (b : Bucket) : Bucket :=
  {b with elapsedUs:=us%(b.intervalMs*1000),fired:=us/(b.intervalMs*1000)}

theorem Bucket.isDue_timed (running : 0 < b.intervalMs) (positive : 0 < tick) (whole : tick ∣ b.intervalMs*1000)
    (ticked : tick ∣ us) : Bucket.isDue (Bucket.timed us b) tick = true ↔ b.intervalMs*1000 ∣ us+tick := by
  refine Bucket.isDue_iff.trans ?_
  change b.intervalMs*1000 ≤ us%(b.intervalMs*1000)+tick ↔ _
  rw [Nat.dvd_iff_mod_eq_zero]
  rcases lap (Nat.mul_pos running (by decide)) whole ticked with ⟨sum,zero,_⟩ | ⟨sum,rest,_⟩
  · exact iff_of_true (Nat.le_of_eq sum.symm) zero
  · exact iff_of_false (Nat.not_le.mpr sum) (by omega)

theorem Bucket.advance_timed (running : 0 < b.intervalMs) (whole : tick ∣ b.intervalMs*1000) (ticked : tick ∣ us) :
    Bucket.advance tick (Bucket.timed us b) = Bucket.timed (us+tick) b := by
  rcases lap (Nat.mul_pos running (by decide)) whole ticked with ⟨sum,zero,next⟩ | ⟨sum,rest,same⟩
  · rw [Bucket.advance_due (Bucket.isDue_iff.mpr (Nat.le_of_eq sum.symm))]
    simp only [Bucket.timed,zero,next]
  · rw [Bucket.advance_idle fun due => Nat.not_le.mpr sum (Bucket.isDue_iff.mp due)]
    simp only [Bucket.timed,rest,same]

theorem Founded.timed {floor : Nat} (founded : Founded floor b) : Bucket.timed 0 b = b := by
  obtain ⟨interval,points,elapsed,fired⟩ := b
  obtain ⟨rfl,rfl⟩ : elapsed = 0 ∧ fired = 0 := founded.fresh
  simp only [Bucket.timed,Nat.zero_mod,Nat.zero_div]

theorem Founded.after_ticks {floor : Nat} (founded : Founded floor b) (whole : tick ∣ b.intervalMs*1000) (n : Nat) :
    Bucket.after (List.replicate n tick) b = Bucket.timed (n*tick) b := by
  induction n with
  | zero =>
    rw [Nat.zero_mul,founded.timed]
    rfl
  | succ n ih =>
    rw [List.replicate_succ',Bucket.after_append,ih,Nat.succ_mul]
    exact Bucket.advance_timed founded.positive whole (Nat.dvd_mul_left tick n)

theorem Regular.onTime (regular : Regular s) (there : b ∈ s.buckets) (n : Nat) :
    s.Fires b.intervalMs (List.replicate n (s.tickMs*1000)) (s.tickMs*1000) ↔
      b.intervalMs*1000 ∣ (n+1)*(s.tickMs*1000) := by
  have founded := regular.founded b there
  have whole : s.tickMs*1000 ∣ b.intervalMs*1000 := Nat.mul_dvd_mul_right (regular.tickMs_dvd there) 1000
  rw [regular.fires_iff there,founded.after_ticks whole,Nat.succ_mul]
  exact Bucket.isDue_timed founded.positive (Nat.mul_pos regular.tickMs_pos (by decide)) whole (Nat.dvd_mul_left _ n)

structure Cyclic (s : Schedule) : Prop where
  -- a bucket is due as if it were the only one
  alone : ∀ b ∈ s.buckets, ((empty s.floorMs).registerAll b.points).buckets = [b] ∧ ∀ past us,
    s.Fires b.intervalMs past us ↔ ((empty s.floorMs).registerAll b.points).Fires b.intervalMs past us
  known : ∀ past us, ∀ n ∈ (s.after past).due us, ∃ b ∈ s.buckets, b.intervalMs = n
  ascending : ∀ past us, ((s.after past).due us).Pairwise (· < ·)
  -- a cycle is as long as the interval, and longer by less than its last advance
  spaced : ∀ b ∈ s.buckets, ∀ past gap us, s.Begins b.intervalMs past → s.Waits b.intervalMs past gap →
    s.Fires b.intervalMs (past ++ gap) us →
      b.intervalMs*1000 ≤ (gap ++ [us]).sum ∧ (gap ++ [us]).sum < b.intervalMs*1000+us
  onTime : ∀ b ∈ s.buckets, ∀ n, s.Fires b.intervalMs (List.replicate n (s.tickMs*1000)) (s.tickMs*1000) ↔
    b.intervalMs*1000 ∣ (n+1)*(s.tickMs*1000)

theorem Regular.cyclic (regular : Regular s) : Cyclic s := by
  refine ⟨?_,?_,due_ascending regular,?_,fun b there n => regular.onTime there n⟩
  · intro b there
    rw [(regular.founded b there).alone regular.floor]
    refine ⟨rfl,?_⟩
    intro past us
    rw [regular.fires_iff there,(regular.alone there).fires_iff (List.mem_singleton.mpr rfl)]
  · intro past us n due
    rw [due_after] at due
    obtain ⟨b,among,same⟩ := List.mem_map.mp due
    exact ⟨b,List.mem_of_mem_filter among,same⟩
  · intro b there past gap us begins waits fires
    rw [List.sum_append,List.sum_singleton]
    exact regular.cycle there begins waits fires

end ModbusMaster.Schedule
