import ModbusMaster.Text.Blank
namespace ModbusMaster.Time

structure Date where
  year : Int
  month : Nat
  day : Nat
  deriving Repr, DecidableEq

-- A year is counted from March, so that its length shows at its end; the 400
-- years of a cycle have 146097 days. Day 0 is 1970-01-01.
def Date.ofDays (days : Int) : Date :=
  let z := days+719468
  let era := z.fdiv 146097
  let doe := (z-era*146097).toNat
  let yoe := (doe-doe/1460+doe/36524-doe/146096)/365
  let doy := doe-(365*yoe+yoe/4-yoe/100)
  let mp := (5*doy+2)/153
  let month := if mp < 10 then mp+3 else mp-9
  let year : Int := yoe+era*400+(if month ≤ 2 then 1 else 0)
  ⟨year,month,doy-(153*mp+2)/5+1⟩

def yearText (y : Int) : String :=
  if y < 0 then "-" ++ Text.padded 4 y.natAbs
  else if 9999 < y then "+" ++ toString y
  else Text.padded 4 y.natAbs

-- An instant: seconds since 1970 and nanoseconds in them. Nanoseconds from
-- 10^9 on lie in a leap second, the second 60.
structure Instant where
  secs : Int
  nanos : Nat
  deriving Repr, DecidableEq, Inhabited

def Instant.ofMicros (us : Nat) : Instant := ⟨us/1000000,us%1000000*1000⟩

def Instant.text (t : Instant) : String :=
  let day := t.secs.fdiv 86400
  let inDay := (t.secs-day*86400).toNat
  let d := Date.ofDays day
  let second := inDay%60+t.nanos/1000000000
  yearText d.year ++ "-" ++ Text.padded 2 d.month ++ "-" ++ Text.padded 2 d.day ++ " " ++
    Text.padded 2 (inDay/3600) ++ ":" ++ Text.padded 2 (inDay/60%60) ++ ":" ++ Text.padded 2 second

def Instant.usec (t : Instant) : Nat := t.nanos%1000000000/1000

end ModbusMaster.Time
