import ModbusMaster.Number.Power
import ModbusMaster.Proofs.Frame.Framed
namespace ModbusMaster

-- What the checksum of a serial frame finds out. The register is linear in what it is fed, so
-- the difference of two frames drives it on its own, and comes back to zero only if it reaches
-- over more than sixteen bits.

theorem Bytes.word_xor (hi lo : UInt8) : word hi lo = lo.toUInt16 ^^^ (hi.toUInt16 <<< 8) := by
  apply UInt16.toBitVec_inj.mp
  simp only [word,UInt16.toBitVec_or,UInt16.toBitVec_xor,UInt16.toBitVec_shiftLeft,UInt8.toBitVec_toUInt16]
  ext i below
  rcases Nat.lt_or_ge i 8 with low | high
  · simp [low]
  · simp [Nat.not_lt.mpr high,BitVec.getLsbD_of_ge lo.toBitVec i high]

theorem Bytes.word_zero {hi lo : UInt8} (zero : word hi lo = 0) : hi = 0 ∧ lo = 0 := by
  have octets := be16_word hi lo
  rw [zero] at octets
  cases octets
  exact ⟨rfl,rfl⟩

namespace Crc
variable {r s : UInt16} {f g d body : Bytes} {i : Nat}

theorem odd_iff (r : UInt16) : r &&& 1 = 1 ↔ r.toNat % 2 = 1 := by
  rw [← UInt16.toNat_inj,UInt16.toNat_and]
  show r.toNat &&& 1 = 1 ↔ r.toNat % 2 = 1
  rw [Nat.and_one_is_mod]

theorem shift_odd (odd : r.toNat % 2 = 1) : shift r = (r >>> 1) ^^^ polynomial := if_pos ((odd_iff r).mpr odd)

theorem shift_even (even : ¬r.toNat % 2 = 1) : shift r = r >>> 1 := if_neg (mt (odd_iff r).mp even)

theorem halved (r : UInt16) : (r >>> 1).toNat = r.toNat/2 := by
  rw [UInt16.toNat_shiftRight]
  exact Nat.shiftRight_eq_div_pow r.toNat 1

theorem shift_xor (r s : UInt16) : shift (r ^^^ s) = shift r ^^^ shift s := by
  have parity : (r ^^^ s).toNat % 2 = 1 ↔ ¬(r.toNat % 2 = 1 ↔ s.toNat % 2 = 1) := by
    rw [UInt16.toNat_xor]
    exact Nat.xor_mod_two_eq_one
  have moved : (r ^^^ s) >>> 1 = r >>> 1 ^^^ s >>> 1 := UInt16.shiftRight_xor
  by_cases odd : r.toNat % 2 = 1 <;> by_cases odd' : s.toNat % 2 = 1
  · -- the polynomial is taken twice
    rw [shift_even (mt parity.mp (by simp [odd,odd'])),shift_odd odd,shift_odd odd',moved,UInt16.xor_comm (s >>> 1),
      UInt16.xor_assoc (r >>> 1),← UInt16.xor_assoc polynomial,UInt16.xor_self,UInt16.zero_xor]
  · rw [shift_odd (parity.mpr (by simp [odd,odd'])),shift_odd odd,shift_even odd',moved]
    ac_rfl
  · rw [shift_odd (parity.mpr (by simp [odd,odd'])),shift_even odd,shift_odd odd',moved]
    ac_rfl
  · rw [shift_even (mt parity.mp (by simp [odd,odd'])),shift_even odd,shift_even odd',moved]

theorem shifts_xor (n : Nat) (r s : UInt16) : shifts n (r ^^^ s) = shifts n r ^^^ shifts n s := by
  induction n generalizing r s with
  | zero => rfl
  | succ n ih =>
    rw [shifts,shift_xor]
    exact ih _ _

-- A set bit that leaves the register brings in the polynomial, whose highest bit is set.
theorem shift_zero (zero : shift r = 0) : r = 0 := by
  have half := halved r
  apply UInt16.toNat_inj.mp
  by_cases odd : r.toNat % 2 = 1
  · rw [shift_odd odd,UInt16.xor_eq_zero_iff] at zero
    rw [zero] at half
    have high : 40961 = r.toNat/2 := half
    have below := r.toNat_lt
    omega
  · rw [shift_even odd] at zero
    rw [zero] at half
    have none : 0 = r.toNat/2 := half
    show r.toNat = 0
    omega

theorem shifts_zero {n : Nat} (zero : shifts n r = 0) : r = 0 := by
  induction n generalizing r with
  | zero => exact zero
  | succ n ih => exact shift_zero (ih zero)

theorem shifts_none (n : Nat) : shifts n 0 = 0 := by
  induction n with
  | zero => rfl
  | succ n ih => exact ih

theorem shifts_down {n : Nat} (clear : Number.pow2 n ∣ r.toNat) : (shifts n r).toNat = r.toNat/Number.pow2 n := by
  induction n generalizing r with
  | zero => exact (Nat.div_one _).symm
  | succ n ih =>
    rw [Number.pow2_succ,Nat.mul_comm] at clear
    have even : ¬r.toNat % 2 = 1 := by
      have := Nat.mod_eq_zero_of_dvd (Nat.dvd_trans (Nat.dvd_mul_right 2 _) clear)
      omega
    have rest : Number.pow2 n ∣ (r >>> 1).toNat := halved r ▸ Nat.dvd_div_of_mul_dvd clear
    rw [shifts,shift_even even,ih rest,halved,Nat.div_div_eq_div_mul,Number.pow2_succ,Nat.mul_comm 2]

theorem shifts_octet (x : UInt8) : shifts 8 (x.toUInt16 <<< 8) = x.toUInt16 := by
  have high : (x.toUInt16 <<< 8).toNat = x.toNat*Number.pow2 8 := by
    have below := x.toNat_lt
    rw [UInt16.toNat_shiftLeft,UInt8.toNat_toUInt16]
    show (x.toNat <<< 8) % 65536 = x.toNat*256
    rw [Nat.shiftLeft_eq]
    omega
  apply UInt16.toNat_inj.mp
  rw [shifts_down (by rw [high]; exact Nat.dvd_mul_left _ _),high,UInt8.toNat_toUInt16]
  exact Nat.mul_div_cancel _ (by decide)

theorem step_zero {x : UInt8} (zero : step r x = 0) : r = x.toUInt16 := UInt16.xor_eq_zero_iff.mp (shifts_zero zero)

-- Two octets go into the register as one word, the first of them below the second.
theorem run_pair (r : UInt16) (x y : UInt8) : run r [x,y] = shifts 8 (shifts 8 (r ^^^ Bytes.word y x)) := by
  show shifts 8 (shifts 8 (r ^^^ x.toUInt16) ^^^ y.toUInt16) = _
  rw [Bytes.word_xor,← UInt16.xor_assoc,shifts_xor 8 (r ^^^ x.toUInt16),shifts_octet]

theorem run_pair_zero {x y : UInt8} : run r [x,y] = 0 ↔ Bytes.word y x = r := by
  rw [run_pair]
  constructor
  · intro zero
    exact (UInt16.xor_eq_zero_iff.mp (shifts_zero (shifts_zero zero))).symm
  · rintro rfl
    rw [UInt16.xor_self,shifts_none,shifts_none]

theorem run_closed (body : Bytes) (lo hi : UInt8) : run 0xFFFF (body ++ [lo,hi]) = 0 ↔ Bytes.word hi lo = checksum body := by
  rw [run_append]
  exact run_pair_zero

theorem run_silent (silent : ∀ x ∈ d, x = 0) (zero : run r d = 0) : r = 0 := by
  induction d generalizing r with
  | nil => exact zero
  | cons x d ih =>
    obtain ⟨rfl,rest⟩ := List.forall_mem_cons.mp silent
    exact step_zero (ih rest zero)

def difference (f g : Bytes) : Bytes := List.zipWith (· ^^^ ·) f g

theorem run_difference (same : f.length = g.length) : run (r ^^^ s) (difference f g) = run r f ^^^ run s g := by
  induction f generalizing g r s with
  | nil => cases g with
    | nil => rfl
    | cons => cases same
  | cons x f ih => cases g with
    | nil => cases same
    | cons y g =>
      have stepped : step (r ^^^ s) (x ^^^ y) = step r x ^^^ step s y := by
        unfold step
        rw [← shifts_xor,UInt8.toUInt16_xor]
        congr 1
        ac_rfl
      show run (step (r ^^^ s) (x ^^^ y)) (difference f g) = run (step r x) f ^^^ run (step s y) g
      rw [stepped]
      exact ih (Nat.succ.inj same)

theorem difference_silent (same : f.length = g.length) (silent : ∀ x ∈ difference f g, x = 0) : f = g := by
  induction f generalizing g with
  | nil => exact (List.eq_nil_of_length_eq_zero same.symm).symm
  | cons x f ih => cases g with
    | nil => cases same
    | cons y g =>
      obtain ⟨zero,rest⟩ := List.forall_mem_cons.mp silent
      rw [UInt8.xor_eq_zero_iff.mp zero,ih (Nat.succ.inj same) rest]

-- A difference that lies inside two adjacent octets does not get past the register.
theorem burst_silent (near : ∀ j, j ≠ i → j ≠ i+1 → d.getD j 0 = 0) (zero : run 0 d = 0) : ∀ x ∈ d, x = 0 := by
  induction d generalizing i with
  | nil => exact List.forall_mem_nil _
  | cons x d ih => cases i with
    | succ i =>
      have first : x = 0 := near 0 (Nat.succ_ne_zero i).symm (Nat.succ_ne_zero (i+1)).symm
      subst first
      have later : ∀ j, j ≠ i → j ≠ i+1 → d.getD j 0 = 0 := fun j other next =>
        near (j+1) (mt Nat.succ.inj other) (mt Nat.succ.inj next)
      exact List.forall_mem_cons.mpr ⟨rfl,ih later zero⟩
    | zero => cases d with
      | nil =>
        have alone : 0 = x := UInt8.toUInt16_inj.mp (step_zero zero)
        exact List.forall_mem_singleton.mpr alone.symm
      | cons y d =>
        have behind : ∀ z ∈ d, z = 0 := by
          intro z member
          obtain ⟨j,below,rfl⟩ := List.mem_iff_getElem.mp member
          have silent := near (j+2) (by omega) (by omega)
          rwa [List.getD_cons_succ,List.getD_cons_succ,List.getD_eq_getElem?_getD,List.getElem?_eq_getElem below,
            Option.getD_some] at silent
        change run 0 ([x,y] ++ d) = 0 at zero
        rw [run_append] at zero
        have pair := run_silent behind zero
        obtain ⟨rfl,rfl⟩ := Bytes.word_zero (run_pair_zero.mp pair)
        exact List.forall_mem_cons.mpr ⟨rfl,List.forall_mem_cons.mpr ⟨rfl,behind⟩⟩

theorem run_burst (same : g.length = f.length) (near : ∀ j, j ≠ i → j ≠ i+1 → g[j]? = f[j]?)
    (closed : run r f = 0) (closed' : run r g = 0) : g = f := by
  apply difference_silent same
  have zero : run 0 (difference g f) = 0 := by
    have both := run_difference (r:=r) (s:=r) same
    rwa [closed,closed',UInt16.xor_self] at both
  refine burst_silent (i:=i) (fun j other next => ?_) zero
  rw [difference,List.getD_eq_getElem?_getD,List.getElem?_zipWith,near j other next]
  cases f[j]? <;> simp

end Crc

namespace Response
variable {f g : Bytes} {r : Response} {i : Nat}

theorem ends_octets (enough : 2 ≤ f.length) : ∃ body lo hi, f = body ++ [lo,hi] := by
  have whole := checksumOf_whole enough
  unfold checksumOf at whole
  split at whole
  · rename_i hi lo back reversed
    have forward := congrArg List.reverse reversed
    exact ⟨back.reverse,lo,hi,by simpa using forward⟩
  · cases whole

-- With three octets and more in front of them, only the last two decide whether a frame is read.
theorem decodeRtu_closed {body : Bytes} (lo hi : UInt8) (enough : 3 ≤ body.length) :
    (Bytes.word hi lo = Crc.checksum body → ∃ r, decodeRtu (body ++ [lo,hi]) = .ok r) ∧
    (Bytes.word hi lo ≠ Crc.checksum body →
      decodeRtu (body ++ [lo,hi]) = .error (.crc (Crc.checksum body) (Bytes.word hi lo))) := by
  have long : ¬(body ++ [lo,hi]).length < 5 := by simpa using enough
  have parts : checksumOf (body ++ [lo,hi]) = some (body,Bytes.word hi lo) := by simp [checksumOf]
  unfold decodeRtu
  rw [if_neg long,parts]
  refine ⟨fun agrees => ?_,fun disagrees => if_pos (bne_iff_ne.mpr disagrees)⟩
  dsimp only
  rw [if_neg (by simp [agrees])]
  match body,enough with
  | unit::f::g::rest,_ =>
    have complete := split_isOk (f::g::rest)
    cases splits : split (f::g::rest) with
    | error e => simp [splits,Format.isComplete,Except.isOk,Except.toBool] at complete
    | ok parts =>
      simp only [splits]
      exact ⟨_,rfl⟩

theorem burst_refused (accepted : decodeRtu f = .ok r) (same : g.length = f.length)
    (near : ∀ j, j ≠ i → j ≠ i+1 → g[j]? = f[j]?) (changed : g ≠ f) : ∃ body lo hi, g = body ++ [lo,hi] ∧
      Bytes.word hi lo ≠ Crc.checksum body ∧
      decodeRtu g = .error (.crc (Crc.checksum body) (Bytes.word hi lo)) := by
  have enough : 5 ≤ f.length := by
    refine Nat.not_lt.mp fun short => ?_
    rw [decodeRtu,if_pos short] at accepted
    cases accepted
  obtain ⟨body,lo,hi,rfl⟩ := ends_octets (f:=f) (by omega)
  obtain ⟨other,lo',hi',rfl⟩ := ends_octets (f:=g) (by omega)
  simp only [List.length_append,List.length_cons,List.length_nil] at enough same
  have closed : Bytes.word hi lo = Crc.checksum body := by
    refine Classical.byContradiction fun disagrees => ?_
    rw [(decodeRtu_closed lo hi (by omega)).2 disagrees] at accepted
    cases accepted
  have open' : Bytes.word hi' lo' ≠ Crc.checksum other := fun agrees => changed (Crc.run_burst
    (by simpa using same) near ((Crc.run_closed body lo hi).mpr closed) ((Crc.run_closed other lo' hi').mpr agrees))
  exact ⟨other,lo',hi',rfl,open',(decodeRtu_closed lo' hi' (by omega)).2 open'⟩

-- The last octet of an answer and the first of its checksum, both off by one.
theorem burst_refused_across : ∃ body lo hi, ([1,3,2,0,43,58,155] : Bytes) = body ++ [lo,hi] ∧
    Bytes.word hi lo ≠ Crc.checksum body ∧
    decodeRtu [1,3,2,0,43,58,155] = .error (.crc (Crc.checksum body) (Bytes.word hi lo)) := by
  have whole : Format.rtu.isWhole [1,3,2,0,42,57,155] = true := by decide +kernel
  obtain ⟨r,accepted⟩ := decode_whole whole
  refine burst_refused (i:=4) accepted rfl (fun j other next => ?_) (by decide)
  match j with
  | 0 | 1 | 2 | 3 | 6 => rfl
  | 4 => exact absurd rfl other
  | 5 => exact absurd rfl next
  | n+7 => rfl

end Response
end ModbusMaster
