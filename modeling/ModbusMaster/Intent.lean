import ModbusMaster.Fault
import ModbusMaster.Json.Reader
import ModbusMaster.Json.Writer
namespace ModbusMaster

-- A request for a point as it comes from the bus: a write if its topic says so,
-- else a read.
structure Intent where
  appSeq : String
  command : String
  value : Option String
  wellhead : String
  version : String
  topic : String
  timestamp : String
  usec : String
  deriving Repr, DecidableEq, Inhabited

namespace Intent

inductive Refusal where
  | json
  | duplicate (field : String)
  | missing (field : String)
  | neitherTextNorNumber (shown : String)
  | empty (field : String)
  | noValue
  | noDevice (topic : String)
  deriving Repr, DecidableEq

def Refusal.fault : Refusal → Fault
  | json => .invalidData "JSON error"
  | duplicate f => .invalidData ("JSON error: duplicate field `" ++ f ++ "`")
  | missing f => .invalidData ("JSON error: missing field `" ++ f ++ "`")
  | neitherTextNorNumber v => .invalidData ("JSON error: expected string or number, got " ++ v)
  | empty f => .invalidData ("Intent field '" ++ f ++ "' is empty")
  | noValue => .invalidData "Write intent without 'value'"
  | noDevice t => .invalidData ("Source topic '" ++ t ++ "' has no device segment")

def fieldNames : List String :=
  ["app_seq","command","value","wellhead","version","sourcetopic","timestamp","usec"]

inductive FieldKind where
  | text
  | nullable
  | textOrNumber

def kindOf (name : String) : FieldKind :=
  if name == "value" then .nullable else if name == "app_seq" || name == "usec" then .textOrNumber else .text

abbrev Fields := List (String × Option String)

-- A value of a field; `depth` is how many levels of lists and objects may open in it.
def readField (depth : Nat) (kind : FieldKind) (s : Json.Rest) : Except Refusal (Option String × Json.Rest) :=
  match kind with
  | .text => match Json.readText? s with
    | some (t,r) => .ok (some t,r)
    | none => .error .json
  | .nullable => match Json.blanks s with
    | 'n' :: 'u' :: 'l' :: 'l' :: r => .ok (none,r)
    | s => match Json.readText? s with
      | some (t,r) => .ok (some t,r)
      | none => .error .json
  | .textOrNumber => match Json.readValue? depth s with
    | none => .error .json
    | some (.text t,r) => .ok (some t,r)
    | some (.int i,r) => .ok (some (toString i),r)
    | some (.float x,r) => .ok (some (Json.floatText x),r)
    | some (v,_) => .error (.neitherTextNorNumber v.write)

-- Members up to the closing brace, at least one. Unknown ones are passed over. What
-- is wrong first in the text is what is reported.
def readMembers : Nat → Fields → Json.Rest → Except Refusal (Fields × Json.Rest)
  | 0,_,_ => .error .json
  | fuel+1,got,s =>
    match Json.readText? s with
    | none => .error .json
    | some (name,r) =>
      let known := fieldNames.contains name
      if known && (got.lookup name).isSome then .error (.duplicate name) else
      match Json.blanks r with
      | ':'::r =>
        let read := if known then (readField (Json.depthLimit-1) (kindOf name) r).map fun (v,r) => (got ++ [(name,v)],r)
          else match Json.skipValue? r with
            | some r => .ok (got,r)
            | none => .error .json
        match read with
        | .error e => .error e
        | .ok (got,r) => match Json.blanks r with
          | '\x7d'::r => .ok (got,r)
          | ','::r => readMembers fuel got r
          | _ => .error .json
      | _ => .error .json

def readItems : List String → Fields → Json.Rest → Except Refusal (Fields × Json.Rest)
  | [],got,s => match Json.blanks s with
    | ']'::r => .ok (got,r)
    | _ => .error .json
  | name::names,got,s =>
    let start := if got.isEmpty then some s else match Json.blanks s with
      | ','::r => some r
      | _ => none
    match start with
    | none => .error .json
    | some s => match readField (Json.depthLimit-1) (kindOf name) s with
      | .error e => .error e
      | .ok (v,r) => readItems names (got ++ [(name,v)]) r

def field (got : Fields) (name : String) : Except Refusal String :=
  match got.lookup name with
  | some (some t) => .ok t
  | _ => .error (.missing name)

def ofFields (got : Fields) : Except Refusal Intent := do
  let appSeq ← field got "app_seq"
  let command ← field got "command"
  let wellhead ← field got "wellhead"
  let version ← field got "version"
  let topic ← field got "sourcetopic"
  let timestamp ← field got "timestamp"
  let usec ← field got "usec"
  .ok ⟨appSeq,command,(got.lookup "value").join,wellhead,version,topic,timestamp,usec⟩

def decode (s : List Char) : Except Refusal Intent := do
  let (intent,rest) ← match Json.blanks s with
    | '\x7b'::r => match Json.blanks r with
      | '\x7d'::r => (ofFields []).map fun i => (i,r)
      | r => do
        let (got,rest) ← readMembers (s.length+1) [] r
        let intent ← ofFields got
        .ok (intent,rest)
    | '['::r => do
      let (got,rest) ← readItems fieldNames [] r
      let intent ← ofFields got
      .ok (intent,rest)
    | _ => .error .json
  if (Json.blanks rest).isEmpty then .ok intent else .error .json

def containsText (part : List Char) : List Char → Bool
  | [] => part.isEmpty
  | c::rest => part.isPrefixOf (c::rest) || containsText part rest

def isWrite (i : Intent) : Bool := containsText "write".toList i.topic.toList

def isBlankText (s : String) : Bool := (Text.trim s.toList).isEmpty

def parse (s : String) : Except Refusal Intent := do
  let i ← decode s.toList
  if isBlankText i.command then .error (.empty "command")
  else if isBlankText i.wellhead then .error (.empty "wellhead")
  else if isBlankText i.topic then .error (.empty "sourcetopic")
  else if i.isWrite && i.value.isNone then .error .noValue
  else .ok i

def device (i : Intent) : Except Refusal String :=
  match Text.cutAt '/' i.topic.toList with
  | none => .error (.noDevice i.topic)
  | some (_,rest) =>
    let segment := rest.takeWhile (· != '/')
    if segment.isEmpty then .error (.noDevice i.topic) else .ok (String.ofList segment)

def key (i : Intent) : Except Refusal String :=
  i.device.map fun d => i.wellhead ++ "/" ++ d ++ "/" ++ i.command

end Intent
end ModbusMaster
