import Mathlib.Data.List.Nodup
import ModbusMaster.Polling.Schedule
namespace ModbusMaster.Schedule
variable {s : Schedule} {b c : Bucket} {bs : List Bucket} {p : Point} {floor interval : Nat}

-- What registration makes of points, and the clock that drives it.

theorem roundUp_dvd (value : Nat) {step : Nat} (positive : 0 < step) : step ∣ roundUp value step := by
  unfold roundUp
  rw [if_neg (Nat.ne_of_gt positive)]
  exact Nat.dvd_mul_left _ _

theorem le_roundUp (value step : Nat) : value ≤ roundUp value step := by
  unfold roundUp
  split
  · exact Nat.le_refl _
  · rename_i positive
    have lower := Nat.lt_div_mul_add (a:=value+step-1) (Nat.pos_of_ne_zero positive)
    omega

def interval? (floor : Nat) (p : Point) : Option Nat :=
  match p.pollingMs with
  | none => none
  | some 0 => none
  | some ms => some (roundUp ms floor)

theorem register_interval? (s : Schedule) (p : Point) : s.register p = match interval? s.floorMs p with
    | none => .error .noInterval
    | some interval => .ok (interval,{s with buckets:=place interval p s.buckets}) := by
  unfold register interval?
  cases p.pollingMs with
  | none => rfl
  | some ms => cases ms <;> rfl

theorem interval?_dvd (positive : 0 < floor) (polled : interval? floor p = some interval) :
    0 < interval ∧ floor ∣ interval := by
  unfold interval? at polled
  cases asked : p.pollingMs with
  | none => simp [asked] at polled
  | some ms =>
    cases ms with
    | zero => simp [asked] at polled
    | succ ms =>
      simp only [asked,Option.some.injEq] at polled
      rw [← polled]
      exact ⟨Nat.lt_of_lt_of_le (Nat.succ_pos ms) (le_roundUp (ms+1) floor),roundUp_dvd _ positive⟩

def enter (s : Schedule) (p : Point) : Schedule :=
  match s.register p with
  | .ok (_,s) => s
  | .error _ => s

def registerAll (s : Schedule) (ps : List Point) : Schedule := ps.foldl enter s

theorem enter_interval? (s : Schedule) (p : Point) : s.enter p = match interval? s.floorMs p with
    | none => s
    | some interval => {s with buckets:=place interval p s.buckets} := by
  unfold enter
  rw [register_interval?]
  cases interval? s.floorMs p <;> rfl

theorem ofCatalog_registerAll {f : Format} {d : Catalog} (made : ofCatalog f d = .ok s) :
    s = (ofFormat f).registerAll d.toList := by
  unfold ofCatalog registerAll at *
  generalize ofFormat f = first at made ⊢
  generalize d.toList = ps at made ⊢
  induction ps generalizing first with
  | nil => exact (Except.ok.inj made).symm
  | cons p ps ih =>
    simp only [List.foldlM_cons,List.foldl_cons] at made ⊢
    cases asked : p.pollingMs with
    | none =>
      have same : first.enter p = first := by simp [enter,register,asked]
      rw [same]
      simp only [asked,Option.isNone_none,if_true] at made
      exact ih first made
    | some ms =>
      simp only [asked,Option.isNone_some] at made
      unfold enter
      cases registered : first.register p with
      | error e => simp [registered] at made; cases made
      | ok found =>
        simp only [registered] at made
        exact ih found.2 made

structure Founded (floor : Nat) (b : Bucket) : Prop where
  positive : 0 < b.intervalMs
  multiple : floor ∣ b.intervalMs
  asked : b.points ≠ [] ∧ ∀ p ∈ b.points, interval? floor p = some b.intervalMs
  fresh : b.elapsedUs = 0 ∧ b.fired = 0

structure Regular (s : Schedule) : Prop where
  floor : 0 < s.floorMs
  growing : s.intervals.Pairwise (· < ·)
  founded : ∀ b ∈ s.buckets, Founded s.floorMs b

theorem mem_place (there : b ∈ place interval p bs) : b ∈ bs ∨ b = ⟨interval,[p],0,0⟩ ∨
    ∃ c ∈ bs, c.intervalMs = interval ∧ b = {c with points:=c.points ++ [p]} := by
  induction bs with
  | nil => exact .inr (.inl (List.mem_singleton.mp there))
  | cons c rest ih =>
    unfold place at there
    split at there
    · rcases List.mem_cons.mp there with rfl | old
      · exact .inr (.inl rfl)
      · exact .inl old
    · split at there
      · rename_i same
        rcases List.mem_cons.mp there with rfl | old
        · exact .inr (.inr ⟨c,List.mem_cons_self,same.symm,rfl⟩)
        · exact .inl (List.mem_cons_of_mem _ old)
      · rcases List.mem_cons.mp there with rfl | later
        · exact .inl List.mem_cons_self
        · rcases ih later with old | new | ⟨c,among,joined⟩
          · exact .inl (List.mem_cons_of_mem _ old)
          · exact .inr (.inl new)
          · exact .inr (.inr ⟨c,List.mem_cons_of_mem _ among,joined⟩)

theorem place_intervalMs (there : b ∈ place interval p bs) :
    b.intervalMs = interval ∨ ∃ c ∈ bs, c.intervalMs = b.intervalMs := by
  rcases mem_place there with old | rfl | ⟨c,among,same,rfl⟩
  · exact .inr ⟨b,old,rfl⟩
  · exact .inl rfl
  · exact .inl same

theorem place_growing (growing : (bs.map (·.intervalMs)).Pairwise (· < ·)) :
    ((place interval p bs).map (·.intervalMs)).Pairwise (· < ·) := by
  induction bs with
  | nil => exact List.pairwise_singleton _ _
  | cons c rest ih =>
    obtain ⟨above,tail⟩ := List.pairwise_cons.mp growing
    unfold place
    split
    · rename_i below
      refine List.pairwise_cons.mpr ⟨?_,growing⟩
      intro n later
      rcases List.mem_cons.mp later with rfl | later
      · exact below
      · exact Nat.lt_trans below (above n later)
    · rename_i low
      split
      · exact growing
      · rename_i other
        refine List.pairwise_cons.mpr ⟨?_,ih tail⟩
        intro n later
        obtain ⟨b,there,rfl⟩ := List.mem_map.mp later
        rcases place_intervalMs there with same | ⟨d,among,same⟩
        · change c.intervalMs < b.intervalMs
          omega
        · change c.intervalMs < b.intervalMs
          rw [← same]
          exact above _ (List.mem_map_of_mem among)

theorem regular_empty (floor : Nat) : Regular (empty floor) :=
  ⟨Nat.lt_of_lt_of_le Nat.zero_lt_one (Nat.le_max_right floor 1),List.Pairwise.nil,fun b none => by cases none⟩

theorem enter_regular (regular : Regular s) (p : Point) : Regular (s.enter p) := by
  rw [enter_interval?]
  cases polled : interval? s.floorMs p with
  | none => exact regular
  | some interval =>
    refine ⟨regular.floor,place_growing regular.growing,?_⟩
    intro b there
    obtain ⟨positive,multiple⟩ := interval?_dvd regular.floor polled
    rcases mem_place there with old | rfl | ⟨c,among,same,rfl⟩
    · exact regular.founded b old
    · refine ⟨positive,multiple,⟨List.cons_ne_nil _ _,?_⟩,rfl,rfl⟩
      intro q only
      rw [List.mem_singleton.mp only]
      exact polled
    · obtain ⟨_,_,asked,fresh⟩ := regular.founded c among
      refine ⟨same ▸ positive,same ▸ multiple,⟨by simp,?_⟩,fresh⟩
      intro q member
      rcases List.mem_append.mp member with old | new
      · exact asked.2 q old
      · rw [List.mem_singleton.mp new,polled,same]

theorem registerAll_regular (regular : Regular s) (ps : List Point) : Regular (s.registerAll ps) := by
  unfold registerAll
  induction ps generalizing s with
  | nil => exact regular
  | cons p ps ih => exact ih (enter_regular regular p)

theorem registerAll_alone {ps qs : List Point} (asked : ∀ p ∈ ps, interval? floor p = some interval) :
    (⟨floor,[⟨interval,qs,0,0⟩]⟩ : Schedule).registerAll ps = ⟨floor,[⟨interval,qs ++ ps,0,0⟩]⟩ := by
  induction ps generalizing qs with
  | nil => simp [registerAll]
  | cons p ps ih =>
    have entered : (⟨floor,[⟨interval,qs,0,0⟩]⟩ : Schedule).enter p = ⟨floor,[⟨interval,qs ++ [p],0,0⟩]⟩ := by
      rw [enter_interval?,asked p List.mem_cons_self]
      simp [place]
    change ((⟨floor,[⟨interval,qs,0,0⟩]⟩ : Schedule).enter p).registerAll ps = _
    rw [entered,ih fun q member => asked q (List.mem_cons_of_mem _ member)]
    simp

theorem Founded.alone (founded : Founded floor b) (positive : 0 < floor) :
    (empty floor).registerAll b.points = ⟨floor,[b]⟩ := by
  obtain ⟨interval,points,elapsed,fired⟩ := b
  obtain ⟨_,_,⟨some,asked⟩,fresh,unfired⟩ := founded
  dsimp only at some asked fresh unfired
  subst fresh unfired
  cases points with
  | nil => exact absurd rfl some
  | cons p ps =>
    have first : (empty floor).enter p = ⟨floor,[⟨interval,[p],0,0⟩]⟩ := by
      have least : (empty floor).floorMs = floor := Nat.max_eq_left positive
      rw [enter_interval?,least,asked p List.mem_cons_self]
      simp [place,empty,Nat.max_eq_left positive]
    change ((empty floor).enter p).registerAll ps = _
    rw [first,registerAll_alone fun q member => asked q (List.mem_cons_of_mem _ member)]
    rfl

theorem Regular.unique (regular : Regular s) (here : b ∈ s.buckets) (there : c ∈ s.buckets)
    (same : b.intervalMs = c.intervalMs) : b = c :=
  List.inj_on_of_nodup_map (regular.growing.imp Nat.ne_of_lt) here there same

-- The clock is a divisor of every interval, and so a multiple of the floor.

theorem dvd_commonDivisor {d : Nat} (ns : List Nat) : d ∣ commonDivisor ns ↔ ∀ n ∈ ns, d ∣ n := by
  have general : ∀ first, d ∣ ns.foldl Nat.gcd first ↔ d ∣ first ∧ ∀ n ∈ ns, d ∣ n := by
    induction ns with
    | nil => simp
    | cons n ns ih =>
      intro first
      rw [List.foldl_cons,ih,Nat.dvd_gcd_iff,and_assoc,List.forall_mem_cons]
  exact (general 0).trans (and_iff_right (Nat.dvd_zero d))

theorem Regular.tickMs_pos (regular : Regular s) : 0 < s.tickMs :=
  Nat.lt_of_lt_of_le regular.floor (Nat.le_max_right _ _)

theorem Regular.coarse (regular : Regular s) : s.floorMs ∣ commonDivisor s.intervals := by
  apply (dvd_commonDivisor _).mpr
  intro n member
  obtain ⟨c,here,rfl⟩ := List.mem_map.mp member
  exact (regular.founded c here).multiple

theorem Regular.tickMs_commonDivisor (regular : Regular s) (some : s.buckets ≠ []) : s.tickMs = commonDivisor s.intervals := by
  obtain ⟨b,there⟩ := List.exists_mem_of_ne_nil _ some
  have divides : commonDivisor s.intervals ∣ b.intervalMs :=
    (dvd_commonDivisor _).mp (Nat.dvd_refl _) _ (List.mem_map_of_mem there)
  have positive : 0 < commonDivisor s.intervals := Nat.pos_of_dvd_of_pos divides (regular.founded b there).positive
  exact Nat.max_eq_left (Nat.le_of_dvd positive regular.coarse)

theorem Regular.tickMs_dvd (regular : Regular s) (there : b ∈ s.buckets) : s.tickMs ∣ b.intervalMs := by
  rw [regular.tickMs_commonDivisor (List.ne_nil_of_mem there)]
  exact (dvd_commonDivisor _).mp (Nat.dvd_refl _) _ (List.mem_map_of_mem there)

end ModbusMaster.Schedule
