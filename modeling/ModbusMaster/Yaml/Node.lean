import ModbusMaster.Record
import ModbusMaster.Text.Blank
namespace ModbusMaster

-- Documents of the YAML format by their structure. A scalar knows whether it was
-- written plain, without quotes; the members of a mapping keep their order and
-- may share a name.
inductive Yaml where
  | scalar (plain : Bool) (text : String)
  | list (items : List Yaml)
  | map (members : List (String × Yaml))
  deriving Inhabited

namespace Yaml

def empty : Yaml := .scalar true ""

def isEmpty : Yaml → Bool
  | .scalar plain s => plain && s.isEmpty
  | _ => false

def isNullText (s : String) : Bool := ["","null","Null","NULL","~"].contains s

def digitValue (c : Char) : Nat :=
  let n := c.toNat
  if 48 ≤ n && n ≤ 57 then n-48 else if 97 ≤ n && n ≤ 102 then n-87 else if 65 ≤ n && n ≤ 70 then n-55 else 99

def radixDigits? (radix : Nat) (s : List Char) : Option Nat :=
  if s.isEmpty || !s.all fun c => digitValue c < radix then none
  else some (s.foldl (fun n c => n*radix+digitValue c) 0)

def hasLeadingZero : List Char → Bool
  | '0'::c::rest => (c::rest).all Text.isDigit
  | _ => false

def unsigned? (s : List Char) : Option Nat :=
  match s with
  | '0' :: 'x' :: r => radixDigits? 16 r
  | '0' :: 'o' :: r => radixDigits? 8 r
  | '0' :: 'b' :: r => radixDigits? 2 r
  | s => if hasLeadingZero s then none else radixDigits? 10 s

def naturalText? : List Char → Option Nat
  | '+'::s => unsigned? s
  | s => unsigned? s

def integerText? : List Char → Option Int
  | '-'::s => (unsigned? s).map fun n => -(n : Int)
  | s => (naturalText? s).map Int.ofNat

def boolText? (s : String) : Option Bool :=
  if ["true","True","TRUE"].contains s then some true
  else if ["false","False","FALSE"].contains s then some false
  else none

def decimal? (neg : Bool) (s : List Char) : Option Double :=
  let whole := s.takeWhile Text.isDigit
  let s := s.dropWhile Text.isDigit
  let (fraction,s) := match s with
    | '.'::r => (r.takeWhile Text.isDigit,r.dropWhile Text.isDigit)
    | r => ([],r)
  if whole.isEmpty && fraction.isEmpty then none else
  let digits := (whole ++ fraction).foldl (fun n c => n*10+(c.toNat-48)) 0
  let value (exp : Int) : Option Double :=
    let x := Double.ofDecimal neg digits (exp-fraction.length)
    if x.isInfinite then none else some x
  match s with
  | [] => value 0
  | 'e'::r => (Text.integer? r).bind value
  | 'E'::r => (Text.integer? r).bind value
  | _ => none

def numberText? (s : List Char) : Option Double :=
  let text := String.ofList s
  if [".nan",".NaN",".NAN"].contains text then some .nan
  else if [".inf",".Inf",".INF","+.inf","+.Inf","+.INF"].contains text then some (.infinite false)
  else if ["-.inf","-.Inf","-.INF"].contains text then some (.infinite true)
  else match s with
    | '-'::r => decimal? true r
    | '+'::r => decimal? false r
    | r => decimal? false r

def plain? {β : Type} (read : List Char → Option β) : Yaml → Option β
  | .scalar true s => read s.toList
  | _ => none

def scalarText? : Yaml → Option String
  | .scalar _ s => some s
  | _ => none

-- Scalars as the fields of records: any scalar is a text, only a plain one a number.
def source : Record.Source Yaml where
  natural? := plain? naturalText?
  integer? := plain? integerText?
  number? := plain? numberText?
  flag? := plain? fun s => boolText? (String.ofList s)
  text? := scalarText?
  variant? := scalarText?
  isNull := fun
    | .scalar true s => isNullText s
    | _ => false

-- An empty value is also a mapping without members and a list without items.
def members? : Yaml → Option (List (String × Yaml))
  | .map ms => some ms
  | v => if v.isEmpty then some [] else none

def items? : Yaml → Option (List Yaml)
  | .list vs => some vs
  | v => if v.isEmpty then some [] else none

def fields? (names : List String) (v : Yaml) : Option (List (String × Yaml)) :=
  match v.members? with
  | none => none
  | some ms =>
    let known := ms.filter fun m => names.contains m.1
    if names.all fun n => (known.filter fun m => m.1 == n).length ≤ 1 then some known else none

end Yaml
end ModbusMaster
