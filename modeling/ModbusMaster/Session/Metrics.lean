import ModbusMaster.Number.Double
namespace ModbusMaster

-- What a session counts: requests by their end, and the time they took.
structure Metrics where
  total : Nat
  succeeded : Nat
  failed : Nat
  timeouts : Nat
  retries : Nat
  orphans : Nat
  sumUs : Nat
  leastUs : Option Nat
  mostUs : Option Nat
  deriving Repr, DecidableEq, Inhabited

namespace Metrics

def empty : Metrics := ⟨0,0,0,0,0,0,0,none,none⟩

def success (m : Metrics) (us : Nat) : Metrics :=
  {m with total:=m.total+1,succeeded:=m.succeeded+1,sumUs:=m.sumUs+us,
          leastUs:=some (match m.leastUs with | some x => min x us | none => us),
          mostUs:=some (match m.mostUs with | some x => max x us | none => us)}

def failure (m : Metrics) (us : Nat) : Metrics :=
  {m with total:=m.total+1,failed:=m.failed+1,sumUs:=m.sumUs+us}

def averageNs (m : Metrics) : Nat :=
  if m.total = 0 then 0 else min (m.sumUs*1000/m.total) 0xFFFFFFFFFFFFFFFF

def rate (m : Metrics) : Double :=
  if m.total = 0 then Double.zero false
  else ((Double.ofNat m.succeeded).div (Double.ofNat m.total)).mul (Double.ofNat 100)

end Metrics
end ModbusMaster
