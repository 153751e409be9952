import Mathlib.Data.List.Sort
import Mathlib.Order.Bounds.Basic
import ModbusMaster.Proofs.Polling.Service
namespace ModbusMaster

-- Where points are registered: each in the bucket of its interval, and the clock as slow as the
-- intervals let it be.

namespace Catalog
variable {c d : Catalog} {p : Point} {ps : List Point}

theorem values_entries (t : Std.TreeMap String Point) : t.values = t.toList.map (·.2) := by
  have values : t.values = t.inner.inner.toListModel.map (·.2) := Std.DTreeMap.Internal.Impl.values_eq_map_snd
  have entries : t.toList = t.inner.inner.toListModel.map fun e => (e.1,e.2) :=
    Std.DTreeMap.Internal.Impl.Const.toList_eq_toListModel_map
  rw [values,entries,List.map_map]
  rfl

def Keyed (d : Catalog) : Prop := ∀ e ∈ d.points.toList, e.2.key = e.1

theorem Keyed.apart (keyed : d.Keyed) : (d.toList.map (·.key)).Nodup := by
  have keys : d.toList.map (·.key) = d.points.keys := by
    unfold toList
    rw [values_entries,List.map_map,← Std.TreeMap.map_fst_toList_eq_keys]
    exact List.map_congr_left keyed
  rw [keys]
  exact Std.TreeMap.nodup_keys

theorem add_entries (added : c.add p = .ok d) : d.points.toList.Perm ((p.key,p)::c.points.toList) := by
  unfold add at added
  split at added
  · cases added
  · rename_i fresh
    cases added
    refine Std.TreeMap.toList_insert_perm.trans ?_
    rw [List.filter_eq_self.mpr]
    intro e there
    have found := Std.TreeMap.mem_toList_iff_getElem?_eq_some.mp there
    have other : p.key ≠ e.1 := by
      rintro same
      exact fresh (same ▸ Std.TreeMap.mem_iff_isSome_getElem?.mpr (found ▸ rfl))
    simp [other]

theorem add_keyed (keyed : c.Keyed) (added : c.add p = .ok d) : d.Keyed := by
  intro e there
  rcases List.mem_cons.mp ((add_entries added).mem_iff.mp there) with rfl | old
  · rfl
  · exact keyed e old

theorem add_toList (added : c.add p = .ok d) : d.toList.Perm (p::c.toList) := by
  unfold toList
  rw [values_entries,values_entries]
  exact (add_entries added).map _

theorem addAll_toList (keyed : c.Keyed) (added : ps.foldlM add c = .ok d) : d.Keyed ∧ d.toList.Perm (ps ++ c.toList) := by
  induction ps generalizing c with
  | nil =>
    cases Except.ok.inj added
    exact ⟨keyed,List.Perm.refl _⟩
  | cons p ps ih =>
    rw [List.foldlM_cons] at added
    cases first : c.add p with
    | error fault =>
      rw [first] at added
      cases added
    | ok next =>
      rw [first] at added
      obtain ⟨last,listed⟩ := ih (add_keyed keyed first) added
      exact ⟨last,listed.trans (((add_toList first).append_left ps).trans List.perm_middle)⟩

theorem ofPoints_toList (listed : ofPoints ps = .ok d) : d.toList.Perm ps ∧ (d.toList.map (·.key)).Nodup := by
  obtain ⟨keyed,same⟩ := addAll_toList (c:=⟨{}⟩) (fun e none => by cases none) listed
  have empty : (⟨{}⟩ : Catalog).toList = [] := rfl
  rw [empty,List.append_nil] at same
  exact ⟨same,keyed.apart⟩

end Catalog

namespace Schedule
variable {s : Schedule} {b c : Bucket} {bs : List Bucket} {p q : Point} {ps qs : List Point} {floor interval n ms : Nat}

theorem roundUp_isLeast (value : Nat) {step : Nat} (positive : 0 < step) :
    IsLeast {m | step ∣ m ∧ value ≤ m} (roundUp value step) := by
  refine ⟨⟨roundUp_dvd value positive,le_roundUp value step⟩,?_⟩
  rintro _ ⟨⟨k,rfl⟩,above⟩
  unfold roundUp
  rw [if_neg (Nat.ne_of_gt positive),Nat.mul_comm step k]
  have quotient : (value+step-1)/step < k+1 := by
    rw [Nat.div_lt_iff_lt_mul positive,Nat.succ_mul,Nat.mul_comm k step]
    omega
  exact Nat.mul_le_mul_right step (Nat.le_of_lt_succ quotient)

def share (floor n : Nat) (ps : List Point) : List Point := ps.filter fun p => interval? floor p == some n

theorem mem_share : p ∈ share floor n ps ↔ p ∈ ps ∧ interval? floor p = some n := by simp [share]

theorem share_snoc (floor n : Nat) (ps : List Point) (p : Point) :
    share floor n (ps ++ [p]) = share floor n ps ++ if interval? floor p = some n then [p] else [] := by
  unfold share
  rw [List.filter_append]
  congr 1
  by_cases mine : interval? floor p = some n <;> simp [mine]

def sharing (n : Nat) (points : List Point) : Option Bucket := if points = [] then none else some ⟨n,points,0,0⟩

theorem place_find_other (other : interval ≠ n) :
    (place interval p bs).find? (·.intervalMs == n) = bs.find? (·.intervalMs == n) := by
  induction bs with
  | nil => simp [place,other]
  | cons b rest ih =>
    unfold place
    split
    · simp [other]
    · split
      · rename_i same
        have skipped : b.intervalMs ≠ n := same ▸ other
        simp [skipped]
      · simp only [List.find?_cons,ih]

def joined (interval : Nat) (p : Point) : Option Bucket → Bucket
  | none => ⟨interval,[p],0,0⟩
  | some b => {b with points:=b.points ++ [p]}

theorem place_find_same (growing : (bs.map (·.intervalMs)).Pairwise (· < ·)) :
    (place interval p bs).find? (·.intervalMs == interval) = some (joined interval p (bs.find? (·.intervalMs == interval))) := by
  induction bs with
  | nil => simp [place,joined]
  | cons b rest ih =>
    obtain ⟨above,tail⟩ := List.pairwise_cons.mp growing
    unfold place
    split
    · rename_i below
      have absent : (b::rest).find? (·.intervalMs == interval) = none := by
        refine List.find?_eq_none.mpr fun c there => ?_
        rcases List.mem_cons.mp there with rfl | later
        · simp [Nat.ne_of_gt below]
        · simp [Nat.ne_of_gt (Nat.lt_trans below (above _ (List.mem_map_of_mem later)))]
      rw [absent]
      simp [joined]
    · split
      · rename_i same
        simp [same,joined]
      · rename_i other
        have skipped : (b.intervalMs == interval) = false := beq_eq_false_iff_ne.mpr (Ne.symm other)
        simp only [List.find?_cons,skipped,ih tail]

theorem place_find (growing : (bs.map (·.intervalMs)).Pairwise (· < ·)) (found : bs.find? (·.intervalMs == n) = sharing n qs) :
    (place interval p bs).find? (·.intervalMs == n) = sharing n (qs ++ if interval = n then [p] else []) := by
  by_cases same : interval = n
  · subst same
    rw [place_find_same growing,found,if_pos rfl]
    cases qs <;> simp [sharing,joined]
  · rw [place_find_other same,found,if_neg same,List.append_nil]

structure Holds (s : Schedule) (ps : List Point) : Prop where
  regular : Regular s
  buckets : ∀ n, s.bucket? n = sharing n (share s.floorMs n ps)
  points : (s.buckets.flatMap (·.points)).Perm (ps.filter fun p => (interval? s.floorMs p).isSome)

theorem holds_empty (floor : Nat) : Holds (empty floor) [] :=
  ⟨regular_empty floor,fun _ => rfl,List.Perm.refl _⟩

theorem place_points (interval : Nat) (p : Point) (bs : List Bucket) :
    ((place interval p bs).flatMap (·.points)).Perm (bs.flatMap (·.points) ++ [p]) := by
  induction bs with
  | nil => exact List.Perm.refl _
  | cons b rest ih =>
    unfold place
    split
    · exact (List.perm_append_singleton p _).symm
    · split
      · simp only [List.flatMap_cons,List.append_assoc]
        exact List.perm_append_comm.append_left _
      · simp only [List.flatMap_cons,List.append_assoc]
        exact ih.append_left _

theorem enter_floorMs (s : Schedule) (p : Point) : (s.enter p).floorMs = s.floorMs := by
  rw [enter_interval?]
  cases interval? s.floorMs p <;> rfl

theorem Holds.enter (holds : s.Holds ps) (p : Point) : (s.enter p).Holds (ps ++ [p]) := by
  refine ⟨enter_regular holds.regular p,fun n => ?_,?_⟩
  · rw [enter_floorMs,share_snoc,enter_interval?]
    cases polled : interval? s.floorMs p with
    | none => simpa using holds.buckets n
    | some interval =>
      simp only [Option.some.injEq]
      exact place_find holds.regular.growing (holds.buckets n)
  · rw [enter_floorMs,enter_interval?,List.filter_append]
    cases polled : interval? s.floorMs p with
    | none => simpa [polled] using holds.points
    | some interval =>
      have only : [p].filter (fun p => (interval? s.floorMs p).isSome) = [p] := by simp [polled]
      rw [only]
      exact (place_points interval p s.buckets).trans (holds.points.append_right _)

theorem Holds.registerAll (holds : s.Holds qs) (ps : List Point) : (s.registerAll ps).Holds (qs ++ ps) := by
  induction ps generalizing s qs with
  | nil => rwa [List.append_nil]
  | cons p ps ih =>
    have rest := ih (holds.enter p)
    rwa [List.append_assoc] at rest

theorem registerAll_holds (floor : Nat) (ps : List Point) : ((empty floor).registerAll ps).Holds ps :=
  (holds_empty floor).registerAll ps

theorem registerAll_floorMs (s : Schedule) (ps : List Point) : (s.registerAll ps).floorMs = s.floorMs := by
  unfold registerAll
  induction ps generalizing s with
  | nil => rfl
  | cons p ps ih => exact (ih (s.enter p)).trans (enter_floorMs s p)

theorem bucket?_some (found : s.bucket? n = some b) : b ∈ s.buckets ∧ b.intervalMs = n := by
  unfold bucket? at found
  exact ⟨List.mem_of_find?_eq_some found,by simpa using List.find?_some found⟩

theorem Regular.bucket?_mem (regular : Regular s) (there : b ∈ s.buckets) : s.bucket? b.intervalMs = some b := by
  cases found : s.bucket? b.intervalMs with
  | none => exact absurd (List.find?_eq_none.mp found b there) (by simp)
  | some c =>
    obtain ⟨among,same⟩ := bucket?_some found
    rw [regular.unique among there same]

theorem Holds.bucket (holds : s.Holds ps) (there : b ∈ s.buckets) :
    b.points = share s.floorMs b.intervalMs ps ∧ b.elapsedUs = 0 ∧ b.fired = 0 := by
  have found := (holds.regular.bucket?_mem there).symm.trans (holds.buckets b.intervalMs)
  unfold sharing at found
  split at found
  · cases found
  · rw [Option.some.inj found]
    exact ⟨rfl,rfl,rfl⟩

theorem Holds.found (holds : s.Holds ps) (member : p ∈ ps) (polled : interval? s.floorMs p = some n) :
    ∃ b ∈ s.buckets, b.intervalMs = n ∧ p ∈ b.points := by
  have mine := mem_share.mpr ⟨member,polled⟩
  have there := holds.buckets n
  rw [sharing,if_neg (List.ne_nil_of_mem mine)] at there
  exact ⟨_,(bucket?_some there).1,rfl,mine⟩

theorem Holds.mem_intervals (holds : s.Holds ps) (n : Nat) :
    n ∈ s.intervals ↔ ∃ p ∈ ps, interval? s.floorMs p = some n := by
  constructor
  · intro among
    obtain ⟨b,there,rfl⟩ := List.mem_map.mp among
    obtain ⟨some,asked⟩ := (holds.regular.founded b there).asked
    obtain ⟨p,mine⟩ := List.exists_mem_of_ne_nil _ some
    have shared : p ∈ share s.floorMs b.intervalMs ps := (holds.bucket there).1 ▸ mine
    exact ⟨p,(mem_share.mp shared).1,asked p mine⟩
  · rintro ⟨p,member,polled⟩
    obtain ⟨b,there,rfl,_⟩ := holds.found member polled
    exact List.mem_map_of_mem there

theorem Holds.only (holds : s.Holds ps) (member : p ∈ ps) (polled : interval? s.floorMs p = some n) :
    ∃ b, (b ∈ s.buckets ∧ p ∈ b.points ∧ b.intervalMs = n) ∧ ∀ c ∈ s.buckets, p ∈ c.points → c = b := by
  obtain ⟨b,there,same,mine⟩ := holds.found member polled
  refine ⟨b,⟨there,mine,same⟩,fun c among shared => holds.regular.unique among there ?_⟩
  have asked := (holds.regular.founded c among).asked.2 p shared
  exact (Option.some.inj (asked.symm.trans polled)).trans same.symm

theorem Holds.order (holds : s.Holds ps) {t : Schedule} (other : t.Holds qs) (floors : s.floorMs = t.floorMs)
    (same : ∀ p, p ∈ ps ↔ p ∈ qs) : s.intervals = t.intervals ∧ s.tickMs = t.tickMs := by
  have intervals : s.intervals = t.intervals := by
    refine holds.regular.growing.eq_of_mem_iff other.regular.growing fun n => ?_
    simp only [holds.mem_intervals,other.mem_intervals,floors,same]
  refine ⟨intervals,?_⟩
  unfold tickMs
  rw [intervals,floors]

-- The common divisor as it is computed: the remainder takes the place of the greater number.
def euclid (a b : Nat) : Nat := if b = 0 then a else euclid b (a%b)
termination_by b
decreasing_by exact Nat.mod_lt a (Nat.pos_of_ne_zero ‹_›)

theorem euclid_gcd (a b : Nat) : euclid a b = Nat.gcd a b := by
  induction a,b using euclid.induct with
  | case1 a => rw [euclid,if_pos rfl,Nat.gcd_zero_right]
  | case2 a b some ih => rw [euclid,if_neg some,ih,Nat.gcd_comm a b,Nat.gcd_rec b a,Nat.gcd_comm]

structure Drives (s : Schedule) : Prop where
  greatest : ∀ d, d ∣ s.tickMs ↔ ∀ n ∈ s.intervals, d ∣ n
  intervals : ∀ b ∈ s.buckets, s.tickMs ∣ b.intervalMs
  multiple : s.floorMs ∣ s.tickMs
  least : s.floorMs ≤ s.tickMs

theorem Regular.drives (regular : Regular s) (some : s.buckets ≠ []) : Drives s := by
  have exact := regular.tickMs_commonDivisor some
  refine ⟨fun d => ?_,fun b there => regular.tickMs_dvd there,exact ▸ regular.coarse,Nat.le_max_right _ _⟩
  rw [exact]
  exact dvd_commonDivisor _

theorem interval?_iff (positive : 0 < floor) : interval? floor p = some n ↔
    ∃ ms, p.pollingMs = some ms ∧ 0 < ms ∧ IsLeast {m | floor ∣ m ∧ ms ≤ m} n := by
  unfold interval?
  cases p.pollingMs with
  | none => simp
  | some ms =>
    cases ms with
    | zero => simp
    | succ ms =>
      have least := roundUp_isLeast (ms+1) positive
      constructor
      · rintro ⟨⟩
        exact ⟨ms+1,rfl,Nat.succ_pos ms,least⟩
      · rintro ⟨_,⟨⟩,_,other⟩
        exact congrArg some (least.unique other)

structure Registers (floor : Nat) (ps : List Point) (s : Schedule) : Prop where
  floorMs : s.floorMs = max floor 1
  intervalOf : ∀ p n, interval? s.floorMs p = some n ↔
    ∃ ms, p.pollingMs = some ms ∧ 0 < ms ∧ IsLeast {m | s.floorMs ∣ m ∧ ms ≤ m} n
  -- one point more is refused and nothing changes, or it is admitted at its interval
  refuses : ∀ p, p.pollingMs = none ∨ p.pollingMs = some 0 ↔ s.register p = .error .noInterval
  unchanged : ∀ p, s.register p = .error .noInterval → (empty floor).registerAll (ps ++ [p]) = s
  admits : ∀ p n, interval? s.floorMs p = some n ↔ s.register p = .ok (n,(empty floor).registerAll (ps ++ [p]))
  -- one bucket for each interval, with all points that are polled at it, in their order
  growing : s.intervals.Pairwise (· < ·)
  intervals : ∀ n, n ∈ s.intervals ↔ ∃ p ∈ ps, interval? s.floorMs p = some n
  buckets : ∀ b ∈ s.buckets, b.points = share s.floorMs b.intervalMs ps ∧ b.elapsedUs = 0 ∧ b.fired = 0
  once : (s.buckets.flatMap (·.points)).Perm (ps.filter fun p => (interval? s.floorMs p).isSome)
  only : ∀ p ∈ ps, ∀ n, interval? s.floorMs p = some n →
    ∃ b, (b ∈ s.buckets ∧ p ∈ b.points ∧ b.intervalMs = n) ∧ ∀ c ∈ s.buckets, p ∈ c.points → c = b
  period : s.tickMs = max (s.intervals.foldl euclid 0) s.floorMs
  clock : s.buckets ≠ [] → Drives s
  order : ∀ qs, ps.Perm qs → ((empty floor).registerAll qs).intervals = s.intervals ∧
    ((empty floor).registerAll qs).tickMs = s.tickMs

theorem registerAll_registers (floor : Nat) (ps : List Point) : Registers floor ps ((empty floor).registerAll ps) := by
  have holds := registerAll_holds floor ps
  have least : ∀ qs, ((empty floor).registerAll qs).floorMs = max floor 1 := registerAll_floorMs _
  have grown : ∀ p, (empty floor).registerAll (ps ++ [p]) = ((empty floor).registerAll ps).enter p := fun p => by
    simp [registerAll]
  refine ⟨least ps,fun p n => interval?_iff holds.regular.floor,?_,?_,?_,holds.regular.growing,holds.mem_intervals,
    fun b => holds.bucket,holds.points,fun p member n => holds.only member,?_,holds.regular.drives,?_⟩
  · intro p
    unfold register
    rcases p.pollingMs with _ | _ | ms
    · simp
    · simp
    · simp
  · intro p refused
    rw [grown,enter,refused]
  · intro p n
    rw [grown,enter_interval?,register_interval?]
    cases interval? ((empty floor).registerAll ps).floorMs p with
    | none => simp
    | some interval =>
      simp only [Option.some.injEq,Except.ok.injEq,Prod.mk.injEq,and_true]
  · have loop : euclid = Nat.gcd := funext fun a => funext (euclid_gcd a)
    rw [loop]
    rfl
  · intro qs same
    have other := registerAll_holds floor qs
    exact other.order holds ((least qs).trans (least ps).symm) fun p => same.symm.mem_iff

-- A schedule is refused for a point that asks for an interval of zero, and for no other.
theorem ofCatalog_made (f : Format) (d : Catalog) :
    (∃ s, ofCatalog f d = .ok s) ↔ ∀ p ∈ d.toList, p.pollingMs ≠ some 0 := by
  unfold ofCatalog
  generalize ofFormat f = first
  generalize d.toList = ps
  induction ps generalizing first with
  | nil => simp [pure,Except.pure]
  | cons p ps ih =>
    rw [List.foldlM_cons,List.forall_mem_cons,register]
    rcases p.pollingMs with _ | _ | ms
    · simpa [bind,Except.bind] using ih first
    · simp [bind,Except.bind]
    · simpa [bind,Except.bind] using ih _

end Schedule

namespace Gateway
open Schedule
variable {settings : Settings} {d : Catalog} {ps : List Point} {s : Schedule}

structure Scheduled (settings : Settings) (ps : List Point) (d : Catalog) : Prop where
  made : (∃ s, ofCatalog settings.format d = .ok s) ↔ ∀ p ∈ ps, p.pollingMs ≠ some 0
  registers : ∀ s, ofCatalog settings.format d = .ok s → Registers (floorOf settings.format) d.toList s
  -- every point with an interval, and no other, is in a bucket, in one only and there once
  once : ∀ s, ofCatalog settings.format d = .ok s → (s.buckets.flatMap (·.points)).Perm (ps.filter (·.pollingMs.isSome))
  apart : ∀ s, ofCatalog settings.format d = .ok s → (s.buckets.flatMap (·.points)).Nodup
  -- nothing runs without a schedule, and what runs goes by it
  failed : ∀ e, ofCatalog settings.format d = .error e → ∀ speaks devices, ∃ e, start settings d speaks devices = .error e
  started : ∀ speaks devices first, start settings d speaks devices = .ok first →
    ∃ s, ofCatalog settings.format d = .ok s ∧ first.poller = pollerOf s first.now

theorem start_failed {e : Fault} (refused : ofCatalog settings.format d = .error e) (speaks : Format) (devices : Peer → Device) :
    ∃ e, start settings d speaks devices = .error e := by
  unfold start
  split
  · exact ⟨_,rfl⟩
  · rw [refused]
    exact ⟨e,rfl⟩

theorem ofPoints_scheduled (listed : Catalog.ofPoints ps = .ok d) (settings : Settings) : Scheduled settings ps d := by
  obtain ⟨same,keys⟩ := Catalog.ofPoints_toList listed
  have made := ofCatalog_made settings.format d
  have registers : ∀ s, ofCatalog settings.format d = .ok s → Registers (floorOf settings.format) d.toList s := by
    intro s scheduled
    rw [ofCatalog_registerAll scheduled]
    exact registerAll_registers _ _
  have once : ∀ s, ofCatalog settings.format d = .ok s →
      (s.buckets.flatMap (·.points)).Perm (ps.filter (·.pollingMs.isSome)) := by
    intro s scheduled
    have polled : ∀ p ∈ d.toList, (interval? s.floorMs p).isSome = p.pollingMs.isSome := by
      intro p member
      have asks := made.mp ⟨s,scheduled⟩ p member
      unfold interval?
      match asked : p.pollingMs with
      | none => rfl
      | some 0 => exact absurd asked asks
      | some (ms+1) => rfl
    have all := (registers s scheduled).once
    rw [List.filter_congr polled] at all
    exact all.trans (same.filter _)
  refine ⟨made.trans ?_,registers,once,?_,fun e => start_failed,?_⟩
  · simp only [same.mem_iff]
  · intro s scheduled
    exact (once s scheduled).nodup_iff.mpr ((same.nodup_iff.mp keys.of_map).filter _)
  · intro speaks devices first started
    obtain ⟨begun,schedule,scheduled,polls⟩ := start_clock started
    exact ⟨schedule,scheduled,begun.symm ▸ polls⟩

theorem points_registered : (∀ floor ps, Registers floor ps ((Schedule.empty floor).registerAll ps)) ∧
    ∀ ps d, Catalog.ofPoints ps = .ok d → ∀ settings, Scheduled settings ps d :=
  ⟨registerAll_registers,fun _ _ => ofPoints_scheduled⟩

-- Of three points one has no interval, and one is polled a little slower than it asks.
def threePoints : List Point := [pressure,{level with metric:="depth",pollingMs:=none},level]

theorem points_registered_serial : ∃ d, Catalog.ofPoints threePoints = .ok d ∧ Scheduled serialSettings threePoints d ∧
    ∃ s, ofCatalog .rtu d = .ok s ∧ s.intervals = [300,1000] ∧ s.tickMs = 100 ∧
      Registers 100 threePoints ((Schedule.empty 100).registerAll threePoints) :=
  ⟨_,rfl,points_registered.2 threePoints _ rfl serialSettings,_,rfl,rfl,rfl,points_registered.1 100 threePoints⟩

end Gateway
end ModbusMaster
