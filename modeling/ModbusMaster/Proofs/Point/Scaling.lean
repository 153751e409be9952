import ModbusMaster.Point.Value
import ModbusMaster.Proofs.Number.Rounding
namespace ModbusMaster
open Number

-- Integers under the scale of one. They pass through a number of 53 bits, so that all of them come out
-- as they went in up to 32 bits, and of 64 bits those that are not rounded or end at the limit.

namespace Bytes
variable {a b : Bytes} {n : Nat}

theorem pow2_octets (n : Nat) : pow2 (8*(n+1)) = 256*pow2 (8*n) := by
  rw [Nat.mul_succ,Nat.add_comm,pow2_add]
  rfl

theorem toNat_from (b : Bytes) (n : Nat) : b.foldl (fun n x => n*256+x.toNat) n = n*pow2 (8*b.length)+b.toNat := by
  induction b generalizing n with
  | nil => exact (Nat.mul_one n).symm
  | cons x b ih =>
    unfold toNat
    rw [List.foldl_cons,List.foldl_cons,ih,ih (0*256+x.toNat),List.length_cons,pow2_octets,← Nat.mul_assoc,Nat.zero_mul,
      Nat.zero_add,Nat.add_mul,Nat.add_assoc]

theorem toNat_append (a b : Bytes) : toNat (a ++ b) = a.toNat*pow2 (8*b.length)+b.toNat := by
  unfold toNat
  rw [List.foldl_append]
  exact toNat_from b _

theorem toNat_lt (b : Bytes) : b.toNat < pow2 (8*b.length) := by
  induction b with
  | nil => decide
  | cons x b ih =>
    have below : x.toNat+1 ≤ 256 := x.toNat_lt
    have whole := toNat_append [x] b
    have first : toNat [x] = x.toNat := Nat.zero_add _
    have bound := Nat.mul_le_mul_right (pow2 (8*b.length)) below
    rw [Nat.succ_mul] at bound
    rw [List.length_cons,pow2_octets,show x::b = [x] ++ b from rfl,whole,first]
    omega

theorem toNat_replicate (n : Nat) : toNat (List.replicate n 0) = 0 := by
  induction n with
  | zero => rfl
  | succ n ih =>
    rw [List.replicate_succ',toNat_append,ih]
    rfl

theorem toNat_fit (b : Bytes) (n : Nat) : (b.fit n).toNat = b.toNat%pow2 (8*n) := by
  unfold fit
  rw [toNat_append,toNat_replicate,Nat.zero_mul,Nat.zero_add]
  by_cases short : b.length ≤ n
  · have below : b.toNat < pow2 (8*n) := Nat.lt_of_lt_of_le b.toNat_lt (pow2_mono (Nat.mul_le_mul_left 8 short))
    rw [Nat.sub_eq_zero_of_le short,List.drop_zero,Nat.mod_eq_of_lt below]
  · have kept : (b.drop (b.length-n)).length = n := by
      rw [List.length_drop]
      omega
    have below := toNat_lt (b.drop (b.length-n))
    have whole := toNat_append (b.take (b.length-n)) (b.drop (b.length-n))
    rw [List.take_append_drop,kept] at whole
    rw [kept] at below
    rw [whole,Nat.add_comm,Nat.add_mul_mod_self_right,Nat.mod_eq_of_lt below]

end Bytes

namespace Scaled

theorem signedOf_bmod (n k : Nat) : signedOf (k+1) (n%pow2 (k+1)) = Int.bmod n (pow2 (k+1)) := by
  have half : ((pow2 k*2 : Nat) : Int)+1 = 2*pow2 k+1 := by omega
  have rest : ((n%(pow2 k*2) : Nat) : Int) = (n : Int)%(pow2 k*2 : Nat) := rfl
  unfold signedOf Int.bmod
  rw [Nat.add_sub_cancel,pow2_succ,half,← rest]
  dsimp only
  split <;> split <;> omega

open Double

-- What comes out for an integer that goes in: the nearest number of 53 bits, held in the range.
structure Held (low high i m : Int) : Prop where
  rounded : ∃ k : Nat, Rounds i.natAbs k ∧ m = max low (min high (if i < 0 then -(k : Int) else k))
  unchanged : m = i ↔ Bits 53 i.natAbs ∨ i = high

-- Of a range that ends below at a number of 53 bits, and above at one that would be rounded up.
theorem held_truncate {low high i : Int} (least : low ≤ i) (most : i ≤ high) (bottom : low ≤ 0 ∧ Bits 53 low.natAbs)
    (top : 0 ≤ high ∧ high ≤ nearest high.natAbs) (small : i.natAbs.log2 < 1023) :
    Held low high i (((ofInt i).mul one).truncate low high) := by
  have rounds := nearest_rounds i.natAbs
  rw [truncate_one low high small]
  refine ⟨⟨_,rounds,rfl⟩,fun same => ?_,?_⟩
  · by_cases negative : i < 0
    · have above := rounds.le bottom.2 (by omega)
      rw [if_pos negative] at same
      exact .inl (rounds.exact.mp (by omega))
    · rw [if_neg negative] at same
      by_cases within : (nearest i.natAbs : Int) ≤ high
      · exact .inl (rounds.exact.mp (by omega))
      · exact .inr (by omega)
  · rintro (bits | rfl)
    · rw [rounds.exact.mpr bits]
      split <;> omega
    · rw [if_neg (by omega)]
      omega

theorem log2_lt {n k : Nat} (le : n ≤ pow2 k) : n.log2 < k+1 := by
  by_cases none : n = 0
  · subst none
    exact Nat.succ_pos k
  · exact (Nat.log2_lt none).mpr (Nat.lt_of_le_of_lt le (Nat.pow_lt_pow_right Nat.one_lt_two (Nat.lt_succ_self k)))

theorem held_int {i : Int} (least : -pow2 63 ≤ i) (most : i < pow2 63) :
    Held (-pow2 63) (pow2 63-1) i (((ofInt i).mul one).truncate (-pow2 63) (pow2 63-1)) := by
  have within : i.natAbs ≤ pow2 63 := by omega
  have bottom : Bits 53 (-(pow2 63 : Int)).natAbs := ⟨1,63,by decide,by decide⟩
  refine held_truncate least (by omega) ⟨by omega,bottom⟩ (by decide) ?_
  exact Nat.lt_trans (log2_lt within) (by decide)

theorem held_uint {n : Nat} (most : n < pow2 64) :
    Held 0 (pow2 64-1) n (((ofNat n).mul one).truncate 0 (pow2 64-1)) := by
  have plain : ¬(n : Int) < 0 := by omega
  have same : ofNat n = ofInt n := by
    show ofRatio false n 1 = ofRatio (decide ((n : Int) < 0)) n 1
    rw [decide_eq_false plain]
  rw [same]
  refine held_truncate (by omega) (by omega) ⟨Int.le_refl 0,0,0,by decide,rfl⟩ (by decide) ?_
  exact Nat.lt_trans (log2_lt (Nat.le_of_lt most)) (by decide)

variable {hex : String} {b : Bytes} {width : UInt16}

def unsigned (b : Bytes) (width : UInt16) : Nat := b.toNat%pow2 (width.toNat*16)
def signed (b : Bytes) (width : UInt16) : Int := Int.bmod b.toNat (pow2 (width.toNat*16))

theorem fit_unsigned (b : Bytes) (width : UInt16) : (b.fit (width.toNat*2)).toNat = unsigned b width := by
  rw [Bytes.toNat_fit,unsigned]
  congr 2
  omega

theorem wide_cases (wide : width = 1 ∨ width = 2 ∨ width = 4) : ∃ k, integerBits? width = some (k+1) ∧ width.toNat*16 = k+1 ∧
    k+1 ≤ 64 ∧ (width ≠ 4 → k+1 ≤ 53) := by
  rcases wide with rfl | rfl | rfl
  · exact ⟨15,rfl,rfl,by decide,fun _ => by decide⟩
  · exact ⟨31,rfl,rfl,by decide,fun _ => by decide⟩
  · exact ⟨63,rfl,rfl,by decide,fun other => absurd rfl other⟩

theorem ofHex_int (read : hexValue hex = .ok b) (wide : width = 1 ∨ width = 2 ∨ width = 4) (scale : Double) :
    ofHex hex .int scale width = .ok (.int (((ofInt (signed b width)).mul scale).truncate (-pow2 63) (pow2 63-1))) := by
  obtain ⟨k,bits,width_bits,_⟩ := wide_cases wide
  have value := signedOf_bmod b.toNat k
  unfold ofHex
  rw [read]
  dsimp only
  rw [bits,fit_unsigned]
  unfold signed unsigned
  rw [width_bits,← value]
  rfl

theorem ofHex_uint (read : hexValue hex = .ok b) (wide : width = 1 ∨ width = 2 ∨ width = 4) (scale : Double) :
    ofHex hex .uint scale width = .ok (.uint (((ofNat (unsigned b width)).mul scale).truncate 0 (pow2 64-1)).toNat) := by
  obtain ⟨k,bits,width_bits,_⟩ := wide_cases wide
  unfold ofHex
  rw [read]
  dsimp only
  rw [bits,fit_unsigned]
  rfl

theorem unsigned_lt (b : Bytes) {k : Nat} (bits : width.toNat*16 = k) : unsigned b width < pow2 k := by
  rw [unsigned,bits]
  exact Nat.mod_lt _ (pow2_pos k)

theorem signed_range (b : Bytes) {k : Nat} (bits : width.toNat*16 = k+1) :
    -(pow2 k : Int) ≤ signed b width ∧ signed b width < pow2 k := by
  have least := Int.le_bmod (x:=b.toNat) (pow2_pos (k+1))
  have most := Int.bmod_lt (x:=b.toNat) (pow2_pos (k+1))
  rw [pow2_succ] at least most
  unfold signed
  rw [bits,pow2_succ]
  omega

structure Passes (hex : String) (b : Bytes) (width : UInt16) : Prop where
  int : ∃ i, ofHex hex .int one width = .ok (.int i) ∧ Held (-pow2 63) (pow2 63-1) (signed b width) i ∧
    (width ≠ 4 → i = signed b width)
  uint : ∃ n : Nat, ofHex hex .uint one width = .ok (.uint n) ∧ Held 0 (pow2 64-1) (unsigned b width) n ∧
    (width ≠ 4 → n = unsigned b width)

theorem default_scale_rounds (read : hexValue hex = .ok b) (wide : width = 1 ∨ width = 2 ∨ width = 4) : Passes hex b width := by
  obtain ⟨k,_,bits,most,narrow⟩ := wide_cases wide
  obtain ⟨least,greatest⟩ := signed_range b bits
  have below := unsigned_lt b bits
  refine ⟨⟨_,ofHex_int read wide one,?_⟩,⟨_,ofHex_uint read wide one,?_⟩⟩
  · have bound : pow2 k ≤ pow2 63 := pow2_mono (by omega)
    have held : Held _ _ (signed b width) _ := held_int (by omega) (by omega)
    refine ⟨held,fun other => held.unchanged.mpr (.inl (bits_small ?_))⟩
    have small : pow2 k ≤ pow2 52 := pow2_mono (by have := narrow other; omega)
    have next : pow2 52 < pow2 53 := by decide
    omega
  · have held : Held _ _ (unsigned b width) _ := held_uint (Nat.lt_of_lt_of_le below (pow2_mono most))
    obtain ⟨_,_,whole⟩ := held.rounded
    rw [Int.toNat_of_nonneg (by omega)]
    refine ⟨held,fun other => ?_⟩
    have small : unsigned b width < pow2 53 := Nat.lt_of_lt_of_le below (pow2_mono (narrow other))
    have same := held.unchanged.mpr (.inl (bits_small small))
    omega

-- Of four registers, with a sign and without.
theorem default_scale_rounds_counter : hexValue "0x7FFFFFFFFFFFFDFF" = .ok [127,255,255,255,255,255,253,255] ∧
    Passes "0x7FFFFFFFFFFFFDFF" [127,255,255,255,255,255,253,255] 4 := by
  have read : hexValue "0x7FFFFFFFFFFFFDFF" = .ok [127,255,255,255,255,255,253,255] := Fault.toOption_ok (by decide +kernel)
  exact ⟨read,default_scale_rounds read (.inr (.inr rfl))⟩

-- 2^53+3 comes out as 2^53+4.
example : signed [0,32,0,0,0,0,0,3] 4 = 9007199254740995 ∧ unsigned [0,32,0,0,0,0,0,3] 4 = 9007199254740995 ∧
    (ofHex "0x0020000000000003" .int one 4).toOption = some (.int 9007199254740996) ∧
    (ofHex "0x0020000000000003" .uint one 4).toOption = some (.uint 9007199254740996) := by decide +kernel

end Scaled
end ModbusMaster
