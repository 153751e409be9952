import ModbusMaster.Stack.Station
import ModbusMaster.Settings
namespace ModbusMaster.Gateway

-- A gateway is a station that polls its points by the clock and takes intents.

def pollerOf (schedule : Schedule) (now : Nat) : Option Poller :=
  if schedule.buckets.isEmpty then none else some ⟨schedule,now,now+schedule.tickMs*1000⟩

-- Everything is checked before anything runs. `speaks` is the format of the transport.
def start (s : Settings) (catalog : Catalog) (speaks : Format) (devices : Peer → Device) :
    Except Fault Station :=
  if speaks ≠ s.format then
    .error (.configuration ("Transport speaks " ++ speaks.text ++ " but the gateway is configured for " ++ s.format.text))
  else match Schedule.ofCatalog s.format catalog with
    | .error f => .error f
    | .ok schedule =>
      let station := Station.create s.format s.slots (s.slots*2) s.writeCapacity catalog devices
      let station := (station.configure s.timing).2.start.2
      let station := (station.spawnResponders s.responseWorkers).spawnWriters s.writeWorkers
      .ok {station with poller:=pollerOf schedule station.now}

-- Workers and clock end first, then the sessions, and what is left is processed.
def shutdown (s : Station) : Station := s.stopWorkers.2.shutdown.drain.2

end ModbusMaster.Gateway
