import ModbusMaster.Fault
import ModbusMaster.Frame.Trace
namespace ModbusMaster.Log

-- Which log lines are shown: directives for the parts of a program, and what they let pass.

inductive Level where
  | error
  | warn
  | info
  | debug
  | trace
  deriving Repr, DecidableEq, Inhabited

namespace Level

def all : List Level := [error,warn,info,debug,trace]

def rank : Level → Nat
  | error => 1
  | warn => 2
  | info => 3
  | debug => 4
  | trace => 5

def name : Level → String
  | error => "ERROR"
  | warn => "WARN"
  | info => "INFO"
  | debug => "DEBUG"
  | trace => "TRACE"

end Level

-- A directive lets levels up to its ceiling pass, of sources that begin with its
-- target. One that names a span, or a value of a field, is about spans alone; other
-- fields must be there.
structure Directive where
  target : Option (List Char)
  fields : List (List Char)
  spansOnly : Bool
  ceiling : Nat
  deriving Repr, DecidableEq

inductive Refusal where
  | level
  | directive
  deriving Repr, DecidableEq

def Refusal.message : Refusal → String
  | .level =>
    "error parsing level filter: expected one of \"off\", \"error\", \"warn\", \"info\", \"debug\", \"trace\", " ++
      "or a number 0-5"
  | .directive => "invalid filter directive"

namespace Directive

def most : Nat := 5

def ceiling? (s : List Char) : Option Nat :=
  match (Text.natural? s).filter (· ≤ most) with
  | some n => some n
  | none =>
    let word := String.ofList (Text.upperAscii s)
    if word == "OFF" then some 0 else (Level.all.find? fun l => l.name == word).map Level.rank

def ceilingOf (s : List Char) : Except Refusal Nat :=
  if s.isEmpty then .ok most else match ceiling? s with
    | some n => .ok n
    | none => .error .level

def startsName (c : Char) : Bool := c.isAlphanum || c == '-' || c == ':' || c == '_' || (127 < c.toNat && !Text.isBlank c)

def slice (s : List Char) (start stop : Nat) : List Char := (s.take stop).drop start

def closed (raw shape : List Char) (i : Nat) (d : Directive) : Except Refusal Directive :=
  match shape.drop (i+1) with
  | [] => .ok d
  | '='::_ => (ceilingOf (raw.drop (i+2))).map fun n => {d with ceiling:=n}
  | _ => .error .directive

def bracketed (raw shape : List Char) (i : Nat) (target : Option (List Char)) : Except Refusal Directive :=
  let stop := i+1+((shape.drop (i+1)).takeWhile fun c => c != ']' && c != '\x7b').length
  match shape.drop stop with
  | ']'::_ => closed raw shape stop ⟨target,[],true,most⟩
  | '\x7b'::rest =>
    let last := stop+1+(rest.takeWhile (· != '\x7d')).length
    let field := slice raw (stop+1) last
    if field.isEmpty then .error .directive else
    match shape.drop last with
    | '\x7d' :: ']' :: _ =>
      closed raw shape (last+1) ⟨target,[field.takeWhile (· != '=')],i+1 < stop || field.contains '=',most⟩
    | _ => .error .directive
  | _ => .error .directive

-- Reads one directive. Its shape is that of the text without blanks around it, but
-- its parts are cut out of the whole text.
def parse (raw : List Char) : Except Refusal Directive :=
  let shape := Text.trim raw
  match shape with
  | [] => .error .directive
  | c::_ =>
    if c == '[' then bracketed raw shape 0 none
    else if !startsName c then .error .directive
    else
      let stop := (shape.takeWhile fun c => c != '=' && c != '[').length
      match shape.drop stop with
      | [] => match ceiling? raw with
        | some n => .ok ⟨none,[],false,n⟩
        | none => .ok ⟨some raw,[],false,most⟩
      | '='::_ => (ceilingOf (raw.drop (stop+1))).map fun n => ⟨some (raw.take stop),[],false,n⟩
      | _ => bracketed raw shape stop (some (raw.take stop))

-- The only field that a line has is its message.
def coversLine (source : List Char) (d : Directive) : Bool :=
  !d.spansOnly && (d.target.getD []).isPrefixOf source && d.fields.all (· == "message".toList)

-- A longer target is more specific than a shorter one and than none, then a field
-- than none; of two alike the later counts.
def supersedes (d old : Directive) : Bool :=
  let weight (x : Directive) : Nat × Nat := ((x.target.map (·.length+1)).getD 0,x.fields.length)
  (weight old).1 < (weight d).1 || ((weight old).1 = (weight d).1 && (weight old).2 ≤ (weight d).2)

end Directive

structure Filter where
  directives : List Directive
  deriving Repr

namespace Filter

def parse (s : String) : Except Refusal Filter :=
  match ((Text.splitAt ',' s.toList).filter (!·.isEmpty)).mapM Directive.parse with
  | .error e => .error e
  | .ok [] => .ok ⟨[⟨none,[],false,Level.error.rank⟩]⟩
  | .ok ds => .ok ⟨ds⟩

def choose (given : Option String) (standard : String) : Except Fault Filter :=
  match given.bind fun s => (parse s).toOption with
  | some f => .ok f
  | none => (parse standard).mapError fun e =>
    .configuration ("Invalid log level '" ++ standard ++ "': " ++ e.message)

def allows (f : Filter) (source : String) (l : Level) : Bool :=
  let best := (f.directives.filter (Directive.coversLine source.toList)).foldl
    (fun best d => match best with
      | some old => if d.supersedes old then some d else best
      | none => some d) none
  match best with
  | some d => l.rank ≤ d.ceiling
  | none => false

end Filter

def alreadyStarted : Fault :=
  .configuration "Logging already initialised: a global default trace dispatcher has already been set"

-- Frames are of interest to everybody, but bare octets beside their meaning to few.
def frameLevel (mode : TraceMode) (bare : Bool) : Level := if bare && mode == .both then .debug else .info

def frameLines (f : Filter) (source : String) (mode : TraceMode) (d : Direction) (format : Format) (frame : Bytes) :
    List String :=
  (Trace.lines mode d format frame).filterMap fun (bare,line) =>
    let level := frameLevel mode bare
    if f.allows source level then some (level.name ++ " " ++ line) else none

end ModbusMaster.Log
