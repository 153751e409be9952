import ModbusMaster.Json.Value
import ModbusMaster.Text.Blank
namespace ModbusMaster.Json

-- Reading of JSON text. Every reader takes what is left of the text and gives a
-- value with the rest behind it, or nothing where the text breaks the grammar.

abbrev Rest := List Char

def blanks (s : Rest) : Rest := s.dropWhile fun c => c == ' ' || c == '\t' || c == '\n' || c == '\r'

-- Where a text stands: in plain characters, behind a backslash, or inside the
-- digits of a code unit; `high` is the upper half of a pair that waits for its lower half.
inductive TextMode where
  | plain
  | escape
  | unit (left value : Nat) (high : Option Nat)
  | backslash (high : Nat)
  | marker (high : Nat)

def hexValue? (c : Char) : Option Nat :=
  let n := c.toNat
  if 48 ≤ n && n ≤ 57 then some (n-48)
  else if 65 ≤ n && n ≤ 70 then some (n-55)
  else if 97 ≤ n && n ≤ 102 then some (n-87)
  else none

def shortEscape? : Char → Option Char
  | '"' => some '"'
  | '\\' => some '\\'
  | '/' => some '/'
  | 'b' => some (Char.ofNat 8)
  | 'f' => some (Char.ofNat 12)
  | 'n' => some '\n'
  | 'r' => some '\r'
  | 't' => some '\t'
  | _ => none

def closeUnit (n : Nat) (high : Option Nat) : Option (List Char × TextMode) :=
  match high with
  | some h => if 0xDC00 ≤ n && n ≤ 0xDFFF then some ([Char.ofNat (0x10000+(h-0xD800)*0x400+(n-0xDC00))],.plain) else none
  | none =>
    if 0xDC00 ≤ n && n ≤ 0xDFFF then none
    else if 0xD800 ≤ n && n ≤ 0xDBFF then some ([],.backslash n)
    else some ([Char.ofNat n],.plain)

-- One character of a text other than its closing quote. With `strict` off the
-- code units need not form characters.
def TextMode.next (strict : Bool) (c : Char) : TextMode → Option (List Char × TextMode)
  | .plain => if c = '\\' then some ([],.escape) else if c.toNat < 0x20 then none else some ([c],.plain)
  | .escape => if c = 'u' then some ([],.unit 4 0 none) else (shortEscape? c).map fun d => ([d],.plain)
  | .unit left value high =>
    match hexValue? c with
    | none => none
    | some d =>
      let n := value*16+d
      if 1 < left then some ([],.unit (left-1) n high)
      else if strict then closeUnit n high else some ([],.plain)
  | .backslash high => if c = '\\' then some ([],.marker high) else none
  | .marker high => if c = 'u' then some ([],.unit 4 0 (some high)) else none

def textBody (strict : Bool) : TextMode → Rest → Option (List Char × Rest)
  | _,[] => none
  | .plain,'"'::rest => some ([],rest)
  | mode,c::rest =>
    match mode.next strict c with
    | none => none
    | some (out,after) => match textBody strict after rest with
      | none => none
      | some (more,left) => some (out ++ more,left)

def readText? (s : Rest) : Option (String × Rest) :=
  match blanks s with
  | '"'::rest => (textBody true .plain rest).map fun (cs,left) => (String.ofList cs,left)
  | _ => none

def significand : Nat → Nat → Rest → Nat × Nat × Rest
  | n,count,c::rest =>
    if Text.isDigit c && n*10+(c.toNat-48) < 0x10000000000000000 then significand (n*10+(c.toNat-48)) (count+1) rest
    else (n,count,c::rest)
  | n,count,[] => (n,count,[])

def startsWithDigit : Rest → Bool
  | c::_ => Text.isDigit c
  | [] => false

-- `f*10^exp` with one rounding for each factor, factors of at most 10^308.
def scaleBy : Nat → Double → Int → Option Double
  | 0,f,_ => some f
  | fuel+1,f,exp =>
    if exp.natAbs ≤ 308 then
      let power := Double.ofDecimal false 1 exp.natAbs
      if 0 ≤ exp then
        let r := f.mul power
        if r.isInfinite then none else some r
      else some (f.div power)
    else if f.isZero then some f
    else if 0 ≤ exp then none
    else scaleBy fuel (f.div (Double.ofDecimal false 1 308)) (exp+308)

def signed (neg : Bool) (x : Double) : Double := if neg then x.neg else x

def float? (neg : Bool) (n : Nat) (exp : Int) : Option Json :=
  (scaleBy 4 (Double.ofNat n) exp).map fun x => .float (signed neg x)

def exponentPart (neg : Bool) (n : Nat) (exp : Int) (s : Rest) : Option (Json × Rest) :=
  let (down,digits) := match s with
    | '-'::r => (true,r)
    | '+'::r => (false,r)
    | r => (false,r)
  match Text.digits? (digits.takeWhile Text.isDigit) with
  | none => none
  | some k =>
    let rest := digits.dropWhile Text.isDigit
    if 0x80000000 ≤ k then
      if n ≠ 0 && !down then none else some (.float (Double.zero neg),rest)
    else (float? neg n (if down then exp-k else exp+k)).map fun v => (v,rest)

def exponentOrEnd (neg : Bool) (n : Nat) (exp : Int) : Rest → Option (Json × Rest)
  | 'e'::r => exponentPart neg n exp r
  | 'E'::r => exponentPart neg n exp r
  | r => (float? neg n exp).map fun v => (v,r)

def fractionPart (neg : Bool) (n : Nat) (exp : Int) (s : Rest) : Option (Json × Rest) :=
  let (m,count,rest) := significand n 0 s
  if startsWithDigit rest then exponentOrEnd neg m (exp-count) (rest.dropWhile Text.isDigit)
  else if count = 0 then none
  else exponentOrEnd neg m (exp-count) rest

def integerOf (neg : Bool) (n : Nat) : Json :=
  if !neg then .int n
  else if n = 0 || 0x8000000000000000 < n then .float (signed true (Double.ofNat n))
  else .int (-(n : Int))

def unsigned (neg : Bool) (s : Rest) : Option (Json × Rest) :=
  let (n,count,rest) := match s with
    | '0'::r => (0,1,r)
    | r => significand 0 0 r
  if count = 0 then none
  else if n = 0 && startsWithDigit rest then none
  else if startsWithDigit rest then
    let extra := (rest.takeWhile Text.isDigit).length
    match rest.dropWhile Text.isDigit with
    | '.'::r => fractionPart neg n extra r
    | r => exponentOrEnd neg n extra r
  else match rest with
    | '.'::r => fractionPart neg n 0 r
    | 'e'::r => exponentPart neg n 0 r
    | 'E'::r => exponentPart neg n 0 r
    | r => some (integerOf neg n,r)

def readNumber? : Rest → Option (Json × Rest)
  | '-'::r => unsigned true r
  | r => unsigned false r

mutual
def valueFrom : Nat → Nat → Rest → Option (Json × Rest)
  | 0,_,_ => none
  | fuel+1,depth,s =>
    match blanks s with
    | 'n' :: 'u' :: 'l' :: 'l' :: r => some (.null,r)
    | 't' :: 'r' :: 'u' :: 'e' :: r => some (.bool true,r)
    | 'f' :: 'a' :: 'l' :: 's' :: 'e' :: r => some (.bool false,r)
    | '"'::r => (textBody true .plain r).map fun (cs,left) => (.text (String.ofList cs),left)
    | '['::r =>
      if depth = 0 then none else
      match blanks r with
      | ']'::left => some (.list [],left)
      | r => (itemsFrom fuel (depth-1) r).map fun (items,left) => (.list items,left)
    | '\x7b'::r =>
      if depth = 0 then none else
      match blanks r with
      | '\x7d'::left => some (.object [],left)
      | r => (membersFrom fuel (depth-1) [] r).map fun (ms,left) => (.object ms,left)
    | r => readNumber? r

def itemsFrom : Nat → Nat → Rest → Option (List Json × Rest)
  | 0,_,_ => none
  | fuel+1,depth,s =>
    match valueFrom fuel depth s with
    | none => none
    | some (v,r) => match blanks r with
      | ']'::left => some ([v],left)
      | ','::r => (itemsFrom fuel depth r).map fun (vs,left) => (v::vs,left)
      | _ => none

def membersFrom : Nat → Nat → List (String × Json) → Rest → Option (List (String × Json) × Rest)
  | 0,_,_,_ => none
  | fuel+1,depth,acc,s =>
    match readText? s with
    | none => none
    | some (name,r) => match blanks r with
      | ':'::r => match valueFrom fuel depth r with
        | none => none
        | some (v,r) => match blanks r with
          | '\x7d'::left => some (insertMember name v acc,left)
          | ','::r => membersFrom fuel depth (insertMember name v acc) r
          | _ => none
      | _ => none
end

def depthLimit : Nat := 127

-- Every step of the readers above takes a character or is followed by one that does.
def readValue? (depth : Nat) (s : Rest) : Option (Json × Rest) := valueFrom (2*s.length+2) depth s

def read? (s : String) : Option Json :=
  match readValue? depthLimit s.toList with
  | some (v,rest) => if (blanks rest).isEmpty then some v else none
  | none => none

def skipNumber? (s : Rest) : Option Rest :=
  let s := match s with
    | '-'::r => r
    | r => r
  let int? := match s with
    | '0'::r => if startsWithDigit r then none else some r
    | r => if startsWithDigit r then some (r.dropWhile Text.isDigit) else none
  match int? with
  | none => none
  | some r =>
    let fraction? := match r with
      | '.'::r => if startsWithDigit r then some (r.dropWhile Text.isDigit) else none
      | r => some r
    match fraction? with
    | none => none
    | some r =>
      let exponent (r : Rest) : Option Rest :=
        let r := match r with
          | '-'::r => r
          | '+'::r => r
          | r => r
        if startsWithDigit r then some (r.dropWhile Text.isDigit) else none
      match r with
      | 'e'::r => exponent r
      | 'E'::r => exponent r
      | r => some r

-- What a skipped value still needs: a value, the rest of a list or object (innermost
-- first), a list or object that may close at once, or a member's name.
inductive Want where
  | value
  | items
  | members
  | firstItem
  | firstMember
  | name

-- Passes over a value of any depth; numbers may be out of range and code units
-- need not pair.
def skipFrom : Nat → List Want → Rest → Option Rest
  | 0,_,_ => none
  | _+1,[],s => some s
  | fuel+1,want::more,s =>
    match want,blanks s with
    | .value,'n' :: 'u' :: 'l' :: 'l' :: r => skipFrom fuel more r
    | .value,'t' :: 'r' :: 'u' :: 'e' :: r => skipFrom fuel more r
    | .value,'f' :: 'a' :: 'l' :: 's' :: 'e' :: r => skipFrom fuel more r
    | .value,'"'::r => (textBody false .plain r).bind fun (_,r) => skipFrom fuel more r
    | .value,'['::r => skipFrom fuel (.firstItem::more) r
    | .value,'\x7b'::r => skipFrom fuel (.firstMember::more) r
    | .value,r => (skipNumber? r).bind (skipFrom fuel more)
    | .firstItem,']'::r => skipFrom fuel more r
    | .firstItem,r => skipFrom fuel (.value::.items::more) r
    | .items,']'::r => skipFrom fuel more r
    | .items,','::r => skipFrom fuel (.value::.items::more) r
    | .items,_ => none
    | .firstMember,'\x7d'::r => skipFrom fuel more r
    | .firstMember,r => skipFrom fuel (.name::more) r
    | .members,'\x7d'::r => skipFrom fuel more r
    | .members,','::r => skipFrom fuel (.name::more) r
    | .members,_ => none
    | .name,'"'::r => match textBody false .plain r with
      | none => none
      | some (_,r) => match blanks r with
        | ':'::r => skipFrom fuel (.value::.members::more) r
        | _ => none
    | .name,_ => none

def skipValue? (s : Rest) : Option Rest := skipFrom (3*s.length+3) [.value] s

end ModbusMaster.Json
