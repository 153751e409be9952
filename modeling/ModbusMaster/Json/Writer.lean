import ModbusMaster.Json.Value
import ModbusMaster.Number.Shortest
import ModbusMaster.Text.Hex
namespace ModbusMaster.Json

-- The compact text of a value: no blanks, members in their order.

-- Numbers are positional from 10^-5 up to 10^16, and scientific beyond.
def numberLayout : Number.Layout := ⟨-5,16,true⟩

def floatText : Double → String
  | .finite neg m e =>
    let (c,g) := if m = 0 then (0,0) else Number.shortest m e
    numberLayout.write neg c g
  | _ => "null"

def escaped (c : Char) : List Char :=
  if c = '"' then ['\\','"']
  else if c = '\\' then ['\\','\\']
  else if 0x20 ≤ c.toNat then [c]
  else match c.toNat with
    | 8 => ['\\','b']
    | 9 => ['\\','t']
    | 10 => ['\\','n']
    | 12 => ['\\','f']
    | 13 => ['\\','r']
    | n => ['\\','u'] ++ (Text.Hex.number 4 n).toList

def quoted (s : String) : String := String.ofList ('"'::s.toList.flatMap escaped ++ ['"'])

mutual
def write : Json → String
  | .null => "null"
  | .bool b => if b then "true" else "false"
  | .int i => toString i
  | .float x => floatText x
  | .text s => quoted s
  | .list items => "[" ++ String.intercalate "," (writeItems items) ++ "]"
  | .object members => "\x7b" ++ String.intercalate "," (writeMembers members) ++ "\x7d"

def writeItems : List Json → List String
  | [] => []
  | v::rest => write v::writeItems rest

def writeMembers : List (String × Json) → List String
  | [] => []
  | (k,v)::rest => (quoted k ++ ":" ++ write v)::writeMembers rest
end

end ModbusMaster.Json
