import ModbusMaster.Number.Double
namespace ModbusMaster

-- Values of the JSON data format. An integer within 64 bits stays an integer,
-- any other number is a binary64 one; members keep the order they are listed in.
inductive Json where
  | null
  | bool (b : Bool)
  | int (i : Int)
  | float (x : Double)
  | text (s : String)
  | list (items : List Json)
  | object (members : List (String × Json))
  deriving Inhabited

namespace Json

-- Adds a member at its place among members sorted by name; a later one replaces
-- an earlier one of the same name.
def insertMember (name : String) (v : Json) : List (String × Json) → List (String × Json)
  | [] => [(name,v)]
  | (k,w)::rest =>
    if name < k then (name,v)::(k,w)::rest
    else if name = k then (name,v)::rest
    else (k,w)::insertMember name v rest

def member? (v : Json) (name : String) : Option Json :=
  match v with
  | .object ms => (ms.find? fun m => m.1 == name).map (·.2)
  | _ => none

end Json
end ModbusMaster
