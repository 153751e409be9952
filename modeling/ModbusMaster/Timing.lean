namespace ModbusMaster

-- The timing of exchanges with a device, in microseconds.
structure Timing where
  responseUs : Nat
  delayUs : Nat
  maxRetries : Nat
  deriving Repr, DecidableEq, Inhabited

namespace Timing

def defaultResponseMs : Nat := 80

def limitMs : Int := 60000

def inRange (ms : Int) : Bool := 0 < ms && ms < limitMs

def standard : Timing := ⟨defaultResponseMs*1000,0,0⟩

def withMillis (t : Timing) (responseMs delayMs : Int) : Timing :=
  {t with responseUs:=if inRange responseMs then responseMs.toNat*1000 else t.responseUs,
          delayUs:=if inRange delayMs then delayMs.toNat*1000 else t.delayUs}

def ofMillis (responseMs delayMs : Int) : Timing := standard.withMillis responseMs delayMs

def withRetries (t : Timing) (n : Nat) : Timing := {t with maxRetries:=n}

end Timing
end ModbusMaster
