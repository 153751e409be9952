import ModbusMaster.Number.Double
namespace ModbusMaster

-- What becomes of an integer that is held as a number of 53 bits: the nearest of these numbers, and
-- of two that are equally near the one with a bit less.

namespace Number

theorem pow2_add (a b : Nat) : pow2 (a+b) = pow2 a*pow2 b := Nat.pow_add 2 a b

theorem pow2_mono {a b : Nat} (le : a ≤ b) : pow2 a ≤ pow2 b := Nat.pow_le_pow_right Nat.zero_lt_two le

theorem pow2_log2_le {n : Nat} (some : n ≠ 0) : pow2 n.log2 ≤ n := Nat.log2_self_le some

theorem lt_pow2_log2 (n : Nat) : n < pow2 (n.log2+1) := Nat.lt_log2_self

theorem log2_pow2 (n : Nat) : (pow2 n).log2 = n := Nat.log2_two_pow

theorem log2_unique {n k : Nat} (least : pow2 k ≤ n) (most : n < pow2 (k+1)) : n.log2 = k := by
  have some : n ≠ 0 := Nat.ne_of_gt (Nat.lt_of_lt_of_le (pow2_pos k) least)
  exact (Nat.log2_eq_iff some).mpr ⟨least,most⟩

end Number

namespace Double
open Number
variable {n k j m num den a b c d : Nat} {e : Int} {s : Bool}

theorem roundDiv_near (num : Nat) (positive : 0 < den) :
    2*num ≤ 2*(roundDiv num den*den)+den ∧ 2*(roundDiv num den*den) ≤ 2*num+den := by
  have parts := Nat.div_add_mod num den
  have below := Nat.mod_lt num positive
  rw [Nat.mul_comm den] at parts
  have up : (num/den+1)*den = num/den*den+den := Nat.succ_mul _ _
  unfold roundDiv
  dsimp only
  split
  · omega
  · split
    · rw [up]
      omega
    · split
      · omega
      · rw [up]
        omega

theorem roundDiv_tie (num : Nat) (positive : 0 < den)
    (tie : 2*num = 2*(roundDiv num den*den)+den ∨ 2*(roundDiv num den*den) = 2*num+den) : roundDiv num den%2 = 0 := by
  have parts := Nat.div_add_mod num den
  have below := Nat.mod_lt num positive
  rw [Nat.mul_comm den] at parts
  have up : (num/den+1)*den = num/den*den+den := Nat.succ_mul _ _
  unfold roundDiv at tie ⊢
  dsimp only at tie ⊢
  split at tie
  · omega
  · split at tie
    · rw [up] at tie
      omega
    · split at tie
      · rename_i low high even
        rw [if_neg low,if_neg high,if_pos even]
        exact even
      · rename_i low high odd
        rw [if_neg low,if_neg high,if_neg odd]
        omega

theorem roundDiv_scaled (a b : Nat) (positive : 0 < c) : roundDiv (a*c) (b*c) = roundDiv a b := by
  have less : 2*(a%b*c) < b*c ↔ 2*(a%b) < b := by
    rw [← Nat.mul_assoc]
    exact Nat.mul_lt_mul_right positive
  have more : b*c < 2*(a%b*c) ↔ b < 2*(a%b) := by
    rw [← Nat.mul_assoc]
    exact Nat.mul_lt_mul_right positive
  unfold roundDiv
  simp only [Nat.mul_div_mul_right a b positive,Nat.mul_mod_mul_right,less,more]

theorem roundDiv_ratio (same : a*d = c*b) (one : 0 < b) (two : 0 < d) : roundDiv a b = roundDiv c d := by
  rw [← roundDiv_scaled a b two,same,Nat.mul_comm b d,roundDiv_scaled c d one]

theorem roundDiv_exact (m : Nat) (positive : 0 < den) : roundDiv (m*den) den = m := by
  have none : m*den%den = 0 := Nat.mul_mod_left _ _
  unfold roundDiv
  simp only [none,Nat.mul_div_cancel m positive,Nat.mul_zero,if_pos positive]

def leading (num : Nat) : Nat := roundDiv (num*pow2 52) (pow2 num.log2)

theorem leading_bounds (some : num ≠ 0) : pow2 52 ≤ leading num ∧ leading num ≤ pow2 53 := by
  have positive := pow2_pos num.log2
  have least : pow2 52*pow2 num.log2 ≤ num*pow2 52 := by
    rw [Nat.mul_comm]
    exact Nat.mul_le_mul_right _ (pow2_log2_le some)
  have most : num*pow2 52 < pow2 53*pow2 num.log2 := by
    have bound := lt_pow2_log2 num
    have whole : pow2 53*pow2 num.log2 = pow2 (num.log2+1)*pow2 52 := by
      rw [← pow2_add,← pow2_add]
      congr 1
      omega
    rw [whole]
    exact Nat.mul_lt_mul_of_pos_right bound (pow2_pos 52)
  obtain ⟨low,high⟩ := roundDiv_near (num*pow2 52) positive
  change 2*(num*pow2 52) ≤ 2*(leading num*pow2 num.log2)+pow2 num.log2 at low
  change 2*(leading num*pow2 num.log2) ≤ 2*(num*pow2 52)+pow2 num.log2 at high
  constructor
  · refine Nat.le_of_lt_succ (Nat.lt_of_mul_lt_mul_right (a:=pow2 num.log2) ?_)
    rw [Nat.succ_mul]
    omega
  · refine Nat.le_of_lt_succ (Nat.lt_of_mul_lt_mul_right (a:=pow2 num.log2) ?_)
    rw [Nat.succ_mul]
    omega

theorem leading_exact (least : pow2 52 ≤ m) (most : m < pow2 53) (a : Nat) :
    (m*pow2 a).log2 = 52+a ∧ leading (m*pow2 a) = m := by
  have log : (m*pow2 a).log2 = 52+a := by
    apply log2_unique
    · rw [pow2_add]
      exact Nat.mul_le_mul_right _ least
    · rw [show 52+a+1 = 53+a by omega,pow2_add]
      exact Nat.mul_lt_mul_of_pos_right most (pow2_pos a)
  refine ⟨log,?_⟩
  rw [leading,log,Nat.mul_assoc,← pow2_add,Nat.add_comm a 52]
  exact roundDiv_exact m (pow2_pos _)

theorem inUnits_ratio (num d : Nat) {e : Int} {s t : Nat} (place : (d : Int)+e = s-t) :
    (inUnits num (pow2 d) e).1*pow2 s = num*pow2 t*(inUnits num (pow2 d) e).2 ∧ 0 < (inUnits num (pow2 d) e).2 := by
  unfold inUnits
  split
  · refine ⟨?_,Nat.mul_pos (pow2_pos _) (pow2_pos _)⟩
    dsimp only
    rw [Nat.mul_assoc,← pow2_add,← pow2_add]
    congr 2
    omega
  · refine ⟨?_,pow2_pos _⟩
    dsimp only
    rw [Nat.mul_assoc,Nat.mul_assoc,← pow2_add,← pow2_add]
    congr 2
    omega

theorem placeOf_pow2 (some : num ≠ 0) (d : Nat) : placeOf num (pow2 d) = max ((num.log2 : Int)-d-52) leastPlace := by
  obtain ⟨ratio,positive⟩ := inUnits_ratio num d (e:=(num.log2 : Int)-d-53) (s:=num.log2) (t:=53) (by omega)
  have full : ¬(inUnits num (pow2 d) ((num.log2 : Int)-d-53)).1/(inUnits num (pow2 d) ((num.log2 : Int)-d-53)).2 < pow2 53 := by
    rw [Nat.not_lt,Nat.le_div_iff_mul_le positive]
    refine Nat.le_of_mul_le_mul_right ?_ (pow2_pos num.log2)
    rw [ratio,Nat.mul_right_comm,Nat.mul_comm (pow2 53)]
    exact Nat.mul_le_mul_right _ (Nat.mul_le_mul_right _ (pow2_log2_le some))
  unfold placeOf
  rw [log2_pow2]
  dsimp only
  rw [if_neg full]
  congr 1
  omega

theorem ofRatio_pow2 (s : Bool) (some : num ≠ 0) (d : Nat) (low : leastPlace ≤ (num.log2 : Int)-d-52) :
    ofRatio s num (pow2 d) = if leading num = pow2 53 then pack s (pow2 52) ((num.log2 : Int)-d-52+1)
      else pack s (leading num) ((num.log2 : Int)-d-52) := by
  obtain ⟨ratio,positive⟩ := inUnits_ratio num d (e:=(num.log2 : Int)-d-52) (s:=num.log2) (t:=52) (by omega)
  have digits : roundDiv (inUnits num (pow2 d) ((num.log2 : Int)-d-52)).1 (inUnits num (pow2 d) ((num.log2 : Int)-d-52)).2 =
      leading num := roundDiv_ratio ratio positive (pow2_pos _)
  unfold ofRatio
  rw [if_neg some,placeOf_pow2 some,Int.max_eq_left low]
  dsimp only
  rw [digits]

theorem ofRatio_exact (s : Bool) (least : pow2 52 ≤ m) (most : m < pow2 53) (a d : Nat)
    (low : leastPlace ≤ (a : Int)-d) (high : (a : Int)-d ≤ mostPlace) :
    ofRatio s (m*pow2 a) (pow2 d) = .finite s m ((a : Int)-d) := by
  obtain ⟨log,digits⟩ := leading_exact least most a
  have some : m*pow2 a ≠ 0 := Nat.ne_of_gt (Nat.mul_pos (Nat.lt_of_lt_of_le (pow2_pos 52) least) (pow2_pos a))
  have place : ((m*pow2 a).log2 : Int)-d-52 = a-d := by
    rw [log]
    omega
  rw [ofRatio_pow2 s some d (place ▸ low),digits,if_neg (Nat.ne_of_lt most),place]
  exact if_neg (Int.not_lt.mpr high)

theorem one_eq : one = .finite false (pow2 52) (-52) := by decide

theorem mul_one (least : pow2 52 ≤ m) (most : m < pow2 53) (low : leastPlace ≤ e) (high : e ≤ mostPlace) :
    (finite s m e).mul one = finite s m e := by
  rw [one_eq]
  show ofScaled (s ^^ false) (m*pow2 52) (e+-52) = finite s m e
  rw [Bool.xor_false]
  unfold ofScaled
  split
  · have shift : m*pow2 52*pow2 (e+-52).toNat = m*pow2 e.toNat := by
      rw [Nat.mul_assoc,← pow2_add]
      congr 2
      omega
    have place : (e.toNat : Int)-(0 : Nat) = e := by omega
    have exact := ofRatio_exact s least most e.toNat 0 (by omega) (by omega)
    rw [place] at exact
    rw [shift]
    exact exact
  · have place : ((52 : Nat) : Int)-(-(e+-52)).toNat = e := by omega
    have exact := ofRatio_exact s least most 52 (-(e+-52)).toNat (by omega) (by omega)
    rw [place] at exact
    exact exact

def whole (m : Nat) (e : Int) : Nat := if 0 ≤ e then m*pow2 e.toNat else m/pow2 (-e).toNat

theorem truncate_finite (low high : Int) (s : Bool) (m : Nat) (e : Int) :
    (finite s m e).truncate low high = max low (min high (if s then -(whole m e : Int) else whole m e)) := rfl

def nearest (n : Nat) : Nat := if n.log2 < 52 then n else roundDiv n (pow2 (n.log2-52))*pow2 (n.log2-52)

theorem leading_short (short : n.log2 < 52) : leading n = n*pow2 (52-n.log2) ∧ leading n < pow2 53 := by
  have split : pow2 52 = pow2 (52-n.log2)*pow2 n.log2 := by
    rw [← pow2_add,Nat.sub_add_cancel (Nat.le_of_lt short)]
  have exact : leading n = n*pow2 (52-n.log2) := by
    rw [leading,split,← Nat.mul_assoc]
    exact roundDiv_exact _ (pow2_pos _)
  refine ⟨exact,?_⟩
  have bound := Nat.mul_lt_mul_of_pos_right (lt_pow2_log2 n) (pow2_pos (52-n.log2))
  rw [← pow2_add,show n.log2+1+(52-n.log2) = 53 by omega] at bound
  rw [exact]
  exact bound

theorem leading_long (long : 52 ≤ n.log2) : leading n = roundDiv n (pow2 (n.log2-52)) := by
  refine roundDiv_ratio ?_ (pow2_pos _) (pow2_pos _)
  rw [Nat.mul_assoc,← pow2_add,Nat.add_sub_cancel' long]

theorem whole_nearest (n : Nat) : whole (leading n) ((n.log2 : Int)-52) = nearest n := by
  unfold whole nearest
  by_cases short : n.log2 < 52
  · have place : (-((n.log2 : Int)-52)).toNat = 52-n.log2 := by omega
    rw [if_pos short,if_neg (by omega),place,(leading_short short).1]
    exact Nat.mul_div_cancel n (pow2_pos _)
  · have place : ((n.log2 : Int)-52).toNat = n.log2-52 := by omega
    rw [if_neg short,if_pos (by omega),place,leading_long (Nat.not_lt.mp short)]

theorem whole_carried (carry : leading n = pow2 53) : whole (pow2 52) ((n.log2 : Int)-52+1) = nearest n := by
  have long : 52 ≤ n.log2 := Nat.not_lt.mp fun short => Nat.ne_of_lt (leading_short short).2 carry
  have place : ((n.log2 : Int)-52+1).toNat = 1+(n.log2-52) := by omega
  unfold whole nearest
  rw [if_pos (by omega),if_neg (Nat.not_lt.mpr long),← leading_long long,carry,place,pow2_add,← Nat.mul_assoc]
  rfl

theorem ofInt_nearest {i : Int} (some : i ≠ 0) (small : i.natAbs.log2 < 1023) :
    ∃ m e, ofInt i = finite (decide (i < 0)) m e ∧ pow2 52 ≤ m ∧ m < pow2 53 ∧ leastPlace ≤ e ∧ e ≤ mostPlace ∧
      whole m e = nearest i.natAbs := by
  have some : i.natAbs ≠ 0 := by omega
  obtain ⟨least,most⟩ := leading_bounds some
  have low : leastPlace ≤ (i.natAbs.log2 : Int)-52 := by
    unfold leastPlace
    omega
  have high : (i.natAbs.log2 : Int)-52+1 ≤ mostPlace := by
    unfold mostPlace
    omega
  have made := ofRatio_pow2 (decide (i < 0)) some 0 (by omega)
  rw [show (i.natAbs.log2 : Int)-(0 : Nat)-52 = i.natAbs.log2-52 by omega] at made
  by_cases carry : leading i.natAbs = pow2 53
  · rw [if_pos carry] at made
    exact ⟨_,_,made.trans (if_neg (by omega)),Nat.le_refl _,by decide,by omega,high,whole_carried carry⟩
  · rw [if_neg carry] at made
    exact ⟨_,_,made.trans (if_neg (by omega)),least,Nat.lt_of_le_of_ne most carry,low,by omega,whole_nearest _⟩

theorem truncate_one (low high : Int) {i : Int} (small : i.natAbs.log2 < 1023) :
    ((ofInt i).mul one).truncate low high =
      max low (min high (if i < 0 then -(nearest i.natAbs : Int) else nearest i.natAbs)) := by
  by_cases none : i = 0
  · subst none
    have nought : (ofInt 0).mul one = zero false := by
      rw [one_eq]
      show ofScaled (false ^^ false) (0*pow2 52) (leastPlace+-52) = zero false
      unfold ofScaled
      rw [if_neg (by decide)]
      exact if_pos (Nat.zero_mul _)
    have value : whole 0 leastPlace = 0 := Nat.zero_div _
    rw [nought,zero,truncate_finite,value]
    rfl
  · obtain ⟨m,e,made,least,most,low',high',value⟩ := ofInt_nearest none small
    rw [made,mul_one least most low' high',truncate_finite,value]
    by_cases negative : i < 0 <;> simp [negative]

def Bits (b k : Nat) : Prop := ∃ m e, m < pow2 b ∧ k = m*pow2 e

-- Rounding to 53 bits: the nearest such number, and where two are equally near one that needs fewer.
structure Rounds (n k : Nat) : Prop where
  bits : Bits 53 k
  near : ∀ j, Bits 53 j → ((n : Int)-k).natAbs ≤ ((n : Int)-j).natAbs
  even : ∀ j, Bits 53 j → j ≠ k → ((n : Int)-k).natAbs = ((n : Int)-j).natAbs → Bits 52 k

theorem bits_small (small : n < pow2 53) : Bits 53 n := ⟨n,0,small,(Nat.mul_one n).symm⟩

theorem Rounds.exact (rounds : Rounds n k) : k = n ↔ Bits 53 n := by
  refine ⟨fun same => same ▸ rounds.bits,fun bits => ?_⟩
  have near := rounds.near n bits
  omega

-- Rounding does not pass over a number of 53 bits.
theorem Rounds.le (rounds : Rounds n k) (bits : Bits 53 j) (le : n ≤ j) : k ≤ j := by
  have near := rounds.near j bits
  omega

-- Beside a number with its last place at `u`, another one either has its places from there on as well or is less.
theorem bits_cases (bits : Bits 53 j) (a : Nat) : (∃ c, j = c*pow2 a) ∨ j < pow2 52*pow2 a := by
  obtain ⟨m,e,small,rfl⟩ := bits
  by_cases coarse : a ≤ e
  · refine .inl ⟨m*pow2 (e-a),?_⟩
    rw [Nat.mul_assoc,← pow2_add,Nat.sub_add_cancel coarse]
  · refine .inr ?_
    calc m*pow2 e < pow2 53*pow2 e := Nat.mul_lt_mul_of_pos_right small (pow2_pos e)
      _ = pow2 (53+e) := (pow2_add 53 e).symm
      _ ≤ pow2 (52+a) := pow2_mono (by omega)
      _ = pow2 52*pow2 a := pow2_add 52 a

theorem roundDiv_nearest (positive : 0 < d) (c : Nat) :
    ((n : Int)-(roundDiv n d*d : Nat)).natAbs ≤ ((n : Int)-(c*d : Nat)).natAbs ∧
      (c ≠ roundDiv n d → ((n : Int)-(roundDiv n d*d : Nat)).natAbs = ((n : Int)-(c*d : Nat)).natAbs → roundDiv n d%2 = 0) := by
  obtain ⟨low,high⟩ := roundDiv_near n positive
  have tie := roundDiv_tie n positive
  generalize roundDiv n d = q at *
  rcases Nat.lt_trichotomy c q with less | rfl | more
  · have apart : c*d+d ≤ q*d := by
      rw [← Nat.succ_mul]
      exact Nat.mul_le_mul_right d less
    refine ⟨by omega,fun _ same => tie ?_⟩
    omega
  · exact ⟨Nat.le_refl _,fun other => absurd rfl other⟩
  · have apart : q*d+d ≤ c*d := by
      rw [← Nat.succ_mul]
      exact Nat.mul_le_mul_right d more
    refine ⟨by omega,fun _ same => tie ?_⟩
    omega

theorem bits_carried (a : Nat) {q : Nat} (most : q ≤ pow2 53) (even : q%2 = 0) : Bits 52 (q*pow2 a) := by
  rcases Nat.lt_or_eq_of_le most with less | rfl
  · refine ⟨q/2,a+1,?_,?_⟩
    · rw [Nat.div_lt_iff_lt_mul Nat.zero_lt_two]
      exact less
    · have halves : q = q/2*2 := by omega
      rw [Nat.add_comm,pow2_add,← Nat.mul_assoc]
      exact congrArg (·*pow2 a) halves
  · refine ⟨1,53+a,by decide,?_⟩
    rw [pow2_add,Nat.one_mul]

theorem nearest_rounds (n : Nat) : Rounds n (nearest n) := by
  unfold nearest
  by_cases short : n.log2 < 52
  · rw [if_pos short]
    have small : n < pow2 53 := Nat.lt_of_lt_of_le (lt_pow2_log2 n) (pow2_mono (by omega))
    exact ⟨bits_small small,fun j _ => by omega,fun j _ other same => by omega⟩
  · rw [if_neg short]
    have long : 52 ≤ n.log2 := Nat.not_lt.mp short
    have some : n ≠ 0 := by
      rintro rfl
      exact absurd long (by decide)
    obtain ⟨least,most⟩ := leading_bounds some
    rw [leading_long long] at least most
    have positive := pow2_pos (n.log2-52)
    have high : pow2 52*pow2 (n.log2-52) ≤ n := by
      rw [← pow2_add,Nat.add_sub_cancel' long]
      exact pow2_log2_le some
    refine ⟨?_,?_,?_⟩
    · rcases Nat.lt_or_eq_of_le most with less | carry
      · exact ⟨_,_,less,rfl⟩
      · refine ⟨1,53+(n.log2-52),by decide,?_⟩
        rw [carry,pow2_add,Nat.one_mul]
    · intro j bits
      rcases bits_cases bits (n.log2-52) with ⟨c,rfl⟩ | below
      · exact (roundDiv_nearest positive c).1
      · have near := (roundDiv_nearest (n:=n) positive (pow2 52)).1
        omega
    · intro j bits other same
      rcases bits_cases bits (n.log2-52) with ⟨c,rfl⟩ | below
      · have differ : c ≠ roundDiv n (pow2 (n.log2-52)) := fun equal => other (equal ▸ rfl)
        exact bits_carried _ most ((roundDiv_nearest positive c).2 differ same)
      · have near := (roundDiv_nearest (n:=n) positive (pow2 52)).1
        omega

end Double
end ModbusMaster
