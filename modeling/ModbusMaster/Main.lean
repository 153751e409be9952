import ModbusMaster.Program
import ModbusMaster.Stream.Link
namespace ModbusMaster.Program

-- The command line. Results go to standard output, a line each, and the log to
-- standard error. No driver of lines is linked in, so every session is absent.

def settingNames : List String :=
  ["MODBUS_RESPONSE_TIMEOUT_MS","MODBUS_INTERFRAME_DELAY_MS","MODBUS_MAX_RETRIES","MODBUS_PACKET_LOGGING","RUST_LOG"]

def source : String := "modbus_gateway"

def say (filter : Log.Filter) (level : Log.Level) (message : String) : IO Unit :=
  if filter.allows source level then IO.eprintln (level.name ++ " " ++ message) else pure ()

partial def gather (input : IO.FS.Stream) (lines : IO.Ref (List String)) : IO Unit := do
  let line ← input.getLine
  if line.isEmpty then return
  lines.modify (· ++ [line])
  gather input lines

def submitAll (filter : Log.Filter) (s : Station) : List String → IO Station
  | [] => pure s
  | line::rest => do
    let (r,s) := feed s line
    match r with
    | .ok () => pure ()
    | .error f => say filter .warn ("Intent dropped: " ++ f.message)
    submitAll filter s rest

partial def serve (filter : Log.Filter) (lines : IO.Ref (List String)) (started : Nat) (s : Station) : IO Unit := do
  let s ← submitAll filter s (← lines.swap [])
  let now ← IO.monoMsNow
  let (log,s) := (s.wait (now-started-s.now/1000)).takeLog
  let output ← IO.getStdout
  for r in results log do
    output.putStrLn r.line
  output.flush
  IO.sleep 5
  serve filter lines started s

def run (path : String) : IO UInt32 := do
  let text ← (IO.FS.readFile path).toBaseIO
  let values ← settingNames.mapM fun name => do
    let value ← IO.getEnv name
    pure (name,value)
  let env (name : String) : Option String := (values.lookup name).join
  match launch path (text.mapError toString) env fun s key => unreachable (Stream.Opening.absent s key) with
  | .error f =>
    IO.eprintln ("Error: " ++ f.message)
    pure 1
  | .ok (filter,station) =>
    say filter .info about
    let lines ← IO.mkRef []
    let input ← IO.getStdin
    let _ ← IO.asTask (gather input lines)
    serve filter lines (← IO.monoMsNow) station
    pure 0

end ModbusMaster.Program

def main (args : List String) : IO UInt32 :=
  match args with
  | path::_ => ModbusMaster.Program.run path
  | [] => do
    IO.eprintln ("Error: " ++ ModbusMaster.Program.usage)
    pure 1
