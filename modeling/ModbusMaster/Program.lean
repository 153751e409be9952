import ModbusMaster.Gateway
import ModbusMaster.Log.Filter
namespace ModbusMaster.Program

-- The gateway as a program: a settings file, intents as lines in, results as lines out.

def version : String := "0.1.0"
def about : String := "Voltage Modbus Gateway v" ++ version ++ " - Modbus master request engine"
def usage : String := "usage: modbus_gateway <config.yml>"

-- Everything that can stop the program before it runs, in this order: the settings,
-- the filter of its log, the catalog, and the gateway.
def launch (path : String) (text : Except String String) (env : String → Option String)
    (devices : Settings → Peer → Device) : Except Fault (Log.Filter × Station) := do
  let settings ← Settings.load path text env
  let filter ← Log.Filter.choose (env "RUST_LOG") settings.logLevel
  let catalog ← Catalog.ofPoints settings.points
  let station ← Gateway.start settings catalog settings.format (devices settings)
  .ok (filter,station)

def feed (s : Station) (line : String) : Except Fault Unit × Station :=
  if (Text.trim line.toList).isEmpty then (.ok (),s) else s.submit line

def results (log : List Logged) : List Report :=
  log.filterMap fun l => match l.note with
    | .result r => some r
    | _ => none

def collect (wanted : Nat) : Nat → List Report → Station → List Report × Station
  | 0,got,s => (got,s)
  | ms+1,got,s =>
    if wanted ≤ got.length then (got,s) else
    let (log,s) := (s.wait 1).takeLog
    collect wanted ms (got ++ results log) s

def unreachable (f : Fault) : Device := ⟨fun _ => ⟨0,some f⟩,fun _ _ => .refused f⟩

end ModbusMaster.Program
