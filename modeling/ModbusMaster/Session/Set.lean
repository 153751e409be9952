import ModbusMaster.Session.Service
namespace ModbusMaster

-- The sessions of a running stack, one to a key. Sessions that ran longest ago come
-- first. Once halted they take no more requests.
structure SessionSet where
  timing : Timing
  members : List Session
  halted : Bool
  deriving Inhabited

namespace SessionSet

def start (timing : Timing) : SessionSet := ⟨timing,[],false⟩

def find? (r : SessionSet) (key : Peer) : Option Session := r.members.find? fun s => s.key == key

def keys (r : SessionSet) : List Peer := r.members.map (·.key)

def update (r : SessionSet) (s : Session) : SessionSet :=
  {r with members:=r.members.map fun x => if x.key == s.key then s else x}

def moveLast (r : SessionSet) (s : Session) : SessionSet :=
  {r with members:=(r.members.filter fun x => x.key != s.key) ++ [s]}

-- Hands an entry to its session; the first entry for a key makes the session, which
-- goes on from the given counts. Refused entries change nothing.
def enqueue? (r : SessionSet) (usage : Usage) (e : Entry) : Option SessionSet :=
  if r.halted then none else
  match r.find? e.device.session with
  | some s => (s.queue.push? e).map fun q => r.update {s with queue:=q}
  | none =>
    let s := Session.create e.device.session usage
    (s.queue.push? e).map fun q => {r with members:=r.members ++ [{s with queue:=q}]}

-- Lets one session do all it can at an instant. One that does something moves last.
def runSession (r : SessionSet) (device : Device) (format : Format) (now : Nat) (key : Peer) :
    SessionSet × List SessionEvent :=
  match r.find? key with
  | none => (r,[])
  | some s =>
    if r.halted then
      let (s,out) := s.halt now
      (r.update s,out)
    else match s.step device format r.timing now with
      | none => (r,[])
      | some _ =>
        let (s,out) := s.run device format r.timing now
        (r.moveLast s,out)

def due (r : SessionSet) (now : Nat) : List Peer :=
  (r.members.filter fun s => match s.timer? with
    | some t => t ≤ now
    | none => false).map (·.key)

def timers (r : SessionSet) (now : Nat) : List Nat := (r.members.filterMap Session.timer?).filter (now < ·)

end SessionSet
end ModbusMaster
