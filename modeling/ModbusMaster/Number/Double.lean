import ModbusMaster.Bytes
import ModbusMaster.Number.Power
namespace ModbusMaster

-- Numbers of the binary64 format, held as what they are worth: an integer of at
-- most 53 bits times a power of two. Every arithmetic result is the exact one
-- rounded once to the nearest number of the format, a tie to the even integer.
inductive Double where
  | nan
  | infinite (neg : Bool)
  | finite (neg : Bool) (m : Nat) (e : Int)
  deriving Repr, DecidableEq, Inhabited

namespace Double

def leastPlace : Int := -1074
def mostPlace : Int := 971

def roundDiv (num den : Nat) : Nat :=
  let q := num/den
  let r := num%den
  if 2*r < den then q else if den < 2*r then q+1 else if q%2 = 0 then q else q+1

def inUnits (num den : Nat) (e : Int) : Nat × Nat :=
  if 0 ≤ e then (num,den*Number.pow2 e.toNat) else (num*Number.pow2 (-e).toNat,den)

def placeOf (num den : Nat) : Int :=
  let guess : Int := (Nat.log2 num : Int)-(Nat.log2 den : Int)-53
  let (n,d) := inUnits num den guess
  max (if n/d < Number.pow2 53 then guess else guess+1) leastPlace

def pack (neg : Bool) (m : Nat) (e : Int) : Double :=
  if mostPlace < e then .infinite neg else .finite neg m e

def zero (neg : Bool) : Double := .finite neg 0 leastPlace

def ofRatio (neg : Bool) (num den : Nat) : Double :=
  if num = 0 then zero neg else
  let e := placeOf num den
  let (n,d) := inUnits num den e
  let m := roundDiv n d
  if m = Number.pow2 53 then pack neg (Number.pow2 52) (e+1) else pack neg m e

def ofScaled (neg : Bool) (m : Nat) (e : Int) : Double :=
  if 0 ≤ e then ofRatio neg (m*Number.pow2 e.toNat) 1 else ofRatio neg m (Number.pow2 (-e).toNat)

def ofInt (i : Int) : Double := ofRatio (decide (i < 0)) i.natAbs 1
def ofNat (n : Nat) : Double := ofRatio false n 1
def one : Double := ofNat 1

-- The number nearest to `digits*10^exp`; what is far out of the format is
-- decided from the count of digits.
def ofDecimal (neg : Bool) (digits : Nat) (exp : Int) : Double :=
  let count : Int := (toString digits).length
  if digits = 0 then zero neg
  else if 309 < count+exp then .infinite neg
  else if count+exp < -323 then zero neg
  else if 0 ≤ exp then ofRatio neg (digits*Number.pow10 exp.toNat) 1
  else ofRatio neg digits (Number.pow10 (-exp).toNat)

def neg : Double → Double
  | .nan => .nan
  | .infinite s => .infinite (!s)
  | .finite s m e => .finite (!s) m e

def mul : Double → Double → Double
  | .nan,_ => .nan
  | _,.nan => .nan
  | .infinite s,.infinite t => .infinite (s ^^ t)
  | .infinite s,.finite t m _ => if m = 0 then .nan else .infinite (s ^^ t)
  | .finite s m _,.infinite t => if m = 0 then .nan else .infinite (s ^^ t)
  | .finite s m e,.finite t k f => ofScaled (s ^^ t) (m*k) (e+f)

def div : Double → Double → Double
  | .nan,_ => .nan
  | _,.nan => .nan
  | .infinite _,.infinite _ => .nan
  | .infinite s,.finite t _ _ => .infinite (s ^^ t)
  | .finite s _ _,.infinite t => zero (s ^^ t)
  | .finite s m e,.finite t k f =>
    if k = 0 then if m = 0 then .nan else .infinite (s ^^ t)
    else if 0 ≤ e-f then ofRatio (s ^^ t) (m*Number.pow2 (e-f).toNat) k
    else ofRatio (s ^^ t) m (k*Number.pow2 (f-e).toNat)

-- The integer part, held between `low` and `high`; what is no number counts as zero.
def truncate (low high : Int) : Double → Int
  | .nan => 0
  | .infinite s => if s then low else high
  | .finite s m e =>
    let n : Nat := if 0 ≤ e then m*Number.pow2 e.toNat else m/Number.pow2 (-e).toNat
    max low (min high (if s then -(n : Int) else n))

def toBits : Double → Nat
  | .nan => 0x7FF8000000000000
  | .infinite s => (if s then Number.pow2 63 else 0)+0x7FF0000000000000
  | .finite s m e =>
    (if s then Number.pow2 63 else 0)+(if m < Number.pow2 52 then m else (e+1075).toNat*Number.pow2 52+(m-Number.pow2 52))

def ofBits (n : Nat) : Double :=
  let s := decide (n/Number.pow2 63%2 = 1)
  let exponent : Nat := n/Number.pow2 52%Number.pow2 11
  let fraction : Nat := n%Number.pow2 52
  if exponent = 2047 then if fraction = 0 then .infinite s else .nan
  else if exponent = 0 then .finite s fraction leastPlace
  else .finite s (Number.pow2 52+fraction) ((exponent : Int)-1075)

def ofSingleBits (n : Nat) : Double :=
  let s := decide (n/Number.pow2 31%2 = 1)
  let exponent : Nat := n/Number.pow2 23%Number.pow2 8
  let fraction : Nat := n%Number.pow2 23
  if exponent = 255 then if fraction = 0 then .infinite s else .nan
  else if exponent = 0 then ofScaled s fraction (-149)
  else ofScaled s (Number.pow2 23+fraction) ((exponent : Int)-150)

def isInfinite : Double → Bool
  | .infinite _ => true
  | _ => false

def isZero : Double → Bool
  | .finite _ m _ => m == 0
  | _ => false

end Double
end ModbusMaster
