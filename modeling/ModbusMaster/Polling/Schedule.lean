import ModbusMaster.Point.Catalog
namespace ModbusMaster

-- Points that share a polling interval, the time since they were due, and how often
-- they have been.
structure Bucket where
  intervalMs : Nat
  points : List Point
  elapsedUs : Nat
  fired : Nat
  deriving Repr, Inhabited

-- Buckets with growing intervals. Intervals are multiples of the floor, so that one
-- clock can drive them all.
structure Schedule where
  floorMs : Nat
  buckets : List Bucket
  deriving Repr, Inhabited

namespace Schedule

def floorOf : Format → Nat
  | .tcp => 25
  | .rtu => 100

def empty (floorMs : Nat) : Schedule := ⟨max floorMs 1,[]⟩
def ofFormat (f : Format) : Schedule := empty (floorOf f)

def roundUp (value step : Nat) : Nat := if step = 0 then value else (value+step-1)/step*step

def place (interval : Nat) (p : Point) : List Bucket → List Bucket
  | [] => [⟨interval,[p],0,0⟩]
  | b::rest =>
    if interval < b.intervalMs then ⟨interval,[p],0,0⟩::b::rest
    else if interval = b.intervalMs then {b with points:=b.points ++ [p]}::rest
    else b::place interval p rest

def register (s : Schedule) (p : Point) : Except Point.Defect (Nat × Schedule) :=
  match p.pollingMs with
  | none => .error .noInterval
  | some 0 => .error .noInterval
  | some ms =>
    let interval := roundUp ms s.floorMs
    .ok (interval,{s with buckets:=place interval p s.buckets})

def intervals (s : Schedule) : List Nat := s.buckets.map (·.intervalMs)

def commonDivisor (ns : List Nat) : Nat := ns.foldl Nat.gcd 0

def tickMs (s : Schedule) : Nat := max (commonDivisor s.intervals) s.floorMs

def Bucket.isDue (b : Bucket) (us : Nat) : Bool := b.intervalMs*1000 ≤ b.elapsedUs+us

-- A bucket that is due starts again from zero, so that lateness does not add up.
def Bucket.advance (us : Nat) (b : Bucket) : Bucket :=
  if Bucket.isDue b us then {b with elapsedUs:=0,fired:=b.fired+1} else {b with elapsedUs:=b.elapsedUs+us}

def advance (s : Schedule) (us : Nat) : List Bucket × Schedule :=
  (s.buckets.filter fun b => Bucket.isDue b us,{s with buckets:=s.buckets.map (Bucket.advance us)})

def bucket? (s : Schedule) (interval : Nat) : Option Bucket := s.buckets.find? fun b => b.intervalMs == interval

def ofCatalog (f : Format) (d : Catalog) : Except Fault Schedule :=
  d.toList.foldlM (fun s p =>
    if p.pollingMs.isNone then .ok s
    else match s.register p with
      | .ok (_,s) => .ok s
      | .error e => .error (e.fault p)) (ofFormat f)

end Schedule
end ModbusMaster
