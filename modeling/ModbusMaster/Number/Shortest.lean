import ModbusMaster.Number.Double
namespace ModbusMaster.Number

-- The shortest decimal text that reads back as the number it was written from.

-- The reals that round to one number, as quotients over one denominator; the
-- ends belong to them iff `closed`.
structure Span where
  low : Nat
  mid : Nat
  high : Nat
  den : Nat
  closed : Bool

-- Below a power of two the neighbour is only half as far away.
def Span.around (m : Nat) (e : Int) : Span :=
  let below := if m = Number.pow2 52 ∧ Double.leastPlace < e then 1 else 2
  if 2 ≤ e then
    let u := Number.pow2 (e-2).toNat
    ⟨(4*m-below)*u,4*m*u,(4*m+2)*u,1,m%2 == 0⟩
  else ⟨4*m-below,4*m,4*m+2,Number.pow2 (2-e).toNat,m%2 == 0⟩

def Span.holds (s : Span) (c : Nat) (g : Int) : Bool :=
  let (x,up) := if 0 ≤ g then (c*Number.pow10 g.toNat*s.den,1) else (c*s.den,Number.pow10 (-g).toNat)
  if s.closed then s.low*up ≤ x && x ≤ s.high*up else s.low*up < x && x < s.high*up

def Span.magnitude (s : Span) : Int :=
  if s.den ≤ s.mid then (toString (s.mid/s.den)).length
  else 1-((toString ((s.den+s.mid-1)/s.mid-1)).length : Int)

-- With `n` digits: the neighbours on the decimal grid that read back, the nearer
-- one if both do, of two equally near the even one.
def Span.onGrid? (s : Span) (n : Nat) : Option (Nat × Int) :=
  let g := s.magnitude-n
  let (num,den) := if 0 ≤ g then (s.mid,s.den*Number.pow10 g.toNat) else (s.mid*Number.pow10 (-g).toNat,s.den)
  let a := num/den
  match s.holds a g,s.holds (a+1) g with
  | true,true =>
    let r := num%den
    some (if 2*r < den || (2*r == den && a%2 == 0) then a else a+1,g)
  | true,false => some (a,g)
  | false,true => some (a+1,g)
  | false,false => none

def stripZeros : Nat → Nat → Int → Nat × Int
  | 0,c,g => (c,g)
  | fuel+1,c,g => if c%10 = 0 ∧ c ≠ 0 then stripZeros fuel (c/10) (g+1) else (c,g)

def shortest (m : Nat) (e : Int) : Nat × Int :=
  let s := Span.around m e
  let (c,g) := ((List.range 17).findSome? fun n => s.onGrid? (n+1)).getD (m,e)
  stripZeros 20 c g

-- What a format decides: which exponents of the leading digit are written
-- positionally, and whether a positive exponent has a sign.
structure Layout where
  least : Int
  below : Int
  plus : Bool

def Layout.write (l : Layout) (neg : Bool) (c : Nat) (g : Int) : String :=
  let ds := (toString c).toList
  let lead : Int := ds.length+g-1
  let body : List Char :=
    if c = 0 then ['0','.','0']
    else if l.least ≤ lead && lead < l.below then
      if 0 ≤ g then ds ++ List.replicate g.toNat '0' ++ ['.','0']
      else if 0 ≤ lead then ds.take (lead+1).toNat ++ '.'::ds.drop (lead+1).toNat
      else '0' :: '.' :: List.replicate (-lead-1).toNat '0' ++ ds
    else
      let sign := if lead < 0 then ['-'] else if l.plus then ['+'] else []
      ds.take 1 ++ (if ds.length = 1 then [] else '.'::ds.drop 1) ++ 'e'::sign ++ (toString lead.natAbs).toList
  String.ofList (if neg then '-'::body else body)

end ModbusMaster.Number
