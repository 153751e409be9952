import ModbusMaster.Yaml.Node
namespace ModbusMaster.Yaml

-- Reading of block mappings and lists by indentation, and of flow mappings and
-- lists within a line.

abbrev Rest := List Char

def isSpace (c : Char) : Bool := c == ' ' || c == '\t'
def spaces (s : Rest) : Rest := s.dropWhile isSpace
def startsBlank : Rest → Bool
  | [] => true
  | c::_ => isSpace c

def isFlowMark (c : Char) : Bool := c == ',' || c == '[' || c == ']' || c == '\x7b' || c == '\x7d'

def singleQuoted : Rest → Option (List Char × Rest)
  | '\'' :: '\'' :: rest => (singleQuoted rest).map fun (cs,r) => ('\'' :: cs,r)
  | '\''::rest => some ([],rest)
  | c::rest => (singleQuoted rest).map fun (cs,r) => (c::cs,r)
  | [] => none

def namedEscape? : Char → Option Char
  | '0' => some '\x00'
  | 'a' => some '\x07'
  | 'b' => some '\x08'
  | 't' => some '\t'
  | '\t' => some '\t'
  | 'n' => some '\n'
  | 'v' => some '\x0b'
  | 'f' => some '\x0c'
  | 'r' => some '\r'
  | 'e' => some '\x1b'
  | ' ' => some ' '
  | '"' => some '"'
  | '/' => some '/'
  | '\\' => some '\\'
  | 'N' => some (Char.ofNat 0x85)
  | '_' => some (Char.ofNat 0xA0)
  | 'L' => some (Char.ofNat 0x2028)
  | 'P' => some (Char.ofNat 0x2029)
  | _ => none

def numericDigits? : Char → Option Nat
  | 'x' => some 2
  | 'u' => some 4
  | 'U' => some 8
  | _ => none

def charOf? (n : Nat) : Option Char := if n.isValidChar then some (Char.ofNat n) else none

-- Where a double-quoted text stands: in plain characters, behind a backslash, or
-- among the digits of a character.
inductive QuoteMode where
  | plain
  | escape
  | digits (left value : Nat)

def QuoteMode.next (c : Char) : QuoteMode → Option (List Char × QuoteMode)
  | .plain => if c = '\\' then some ([],.escape) else some ([c],.plain)
  | .escape => match namedEscape? c with
    | some d => some ([d],.plain)
    | none => (numericDigits? c).map fun n => ([],.digits n 0)
  | .digits left value =>
    let d := digitValue c
    if 16 ≤ d then none
    else if left ≤ 1 then (charOf? (value*16+d)).map fun x => ([x],.plain)
    else some ([],.digits (left-1) (value*16+d))

def doubleQuoted : QuoteMode → Rest → Option (List Char × Rest)
  | _,[] => none
  | .plain,'"'::rest => some ([],rest)
  | mode,c::rest =>
    match mode.next c with
    | none => none
    | some (out,after) => (doubleQuoted after rest).map fun (more,r) => (out ++ more,r)

def startsPlain (flow : Bool) : Rest → Bool
  | [] => false
  | c::rest =>
    if c == '-' || c == '?' || c == ':' then
      !startsBlank rest && !(flow && (rest.head?.map isFlowMark).getD false)
    else !(isSpace c || isFlowMark c || "#&*!|>'\"%@".toList.contains c || c.toNat == 96)

-- The characters of a plain scalar, with the blanks behind it; `blank` says whether
-- a blank came before.
def plainChars (flow blank : Bool) : Rest → List Char × Rest
  | [] => ([],[])
  | c::rest =>
    let ends := (c == ':' && startsBlank rest) || (c == '#' && blank) || (flow && isFlowMark c) ||
      (flow && c == ':' && (rest.head?.map isFlowMark).getD false)
    if ends then ([],c::rest) else
    let (cs,r) := plainChars flow (isSpace c) rest
    (c::cs,r)

def readScalar (flow : Bool) (s : Rest) : Option (Bool × String × Rest) :=
  match s with
  | '\''::rest => (singleQuoted rest).map fun (cs,r) => (false,String.ofList cs,r)
  | '"'::rest => (doubleQuoted .plain rest).map fun (cs,r) => (false,String.ofList cs,r)
  | s =>
    if !startsPlain flow s then none else
    let (cs,r) := plainChars flow false s
    some (true,String.ofList (cs.reverse.dropWhile isSpace).reverse,r)

mutual
def flowValue : Nat → Rest → Option (Yaml × Rest)
  | 0,_ => none
  | fuel+1,s =>
    match spaces s with
    | '\x7b'::r => (flowMembers fuel r).map fun (ms,r) => (.map ms,r)
    | '['::r => (flowItems fuel r).map fun (vs,r) => (.list vs,r)
    | s => (readScalar true s).map fun (plain,text,r) => (.scalar plain text,r)

def flowMembers : Nat → Rest → Option (List (String × Yaml) × Rest)
  | 0,_ => none
  | fuel+1,s =>
    match spaces s with
    | '\x7d'::r => some ([],r)
    | s => match readScalar true s with
      | none => none
      | some (plain,name,r) =>
        let member := match spaces r with
          | ':'::r =>
            if plain && !startsBlank r then none else
            match spaces r with
            | ','::_ => some (empty,r)
            | '\x7d'::_ => some (empty,r)
            | _ => flowValue fuel r
          | r => some (empty,r)
        match member with
        | none => none
        | some (v,r) => match spaces r with
          | ','::r => (flowMembers fuel r).map fun (ms,r) => ((name,v)::ms,r)
          | '\x7d'::r => some ([(name,v)],r)
          | _ => none

def flowItems : Nat → Rest → Option (List Yaml × Rest)
  | 0,_ => none
  | fuel+1,s =>
    match spaces s with
    | ']'::r => some ([],r)
    | s => match flowValue fuel s with
      | none => none
      | some (v,r) => match spaces r with
        | ','::r => (flowItems fuel r).map fun (vs,r) => (v::vs,r)
        | ']'::r => some ([v],r)
        | _ => none
end

def isLineEnd (s : Rest) : Bool :=
  match spaces s with
  | [] => true
  | '#'::_ => true
  | _ => false

def inlineValue (s : Rest) : Option Yaml :=
  let s := spaces s
  let read := match s with
    | '\x7b'::_ => flowValue (2*s.length+2) s
    | '['::_ => flowValue (2*s.length+2) s
    | s => (readScalar false s).map fun (plain,text,r) => (.scalar plain text,r)
  match read with
  | some (v,r) => if isLineEnd r then some v else none
  | none => none

structure Line where
  indent : Nat
  text : Rest

def keyOf? (s : Rest) : Option (String × Rest) :=
  match readScalar false s with
  | some (_,name,r) => match spaces r with
    | ':'::r => if startsBlank r then some (name,r) else none
    | _ => none
  | none => none

def itemOf? : Rest → Option (Nat × Rest)
  | '-'::r => if startsBlank r then
      let body := spaces r
      some (1+(r.length-body.length),body)
    else none
  | _ => none

mutual
def block : Nat → List Line → Option (Yaml × List Line)
  | 0,_ => none
  | _,[] => some (empty,[])
  | fuel+1,l::rest =>
    if (itemOf? l.text).isSome then (blockItems fuel l.indent (l::rest)).map fun (vs,ls) => (.list vs,ls)
    else if (keyOf? l.text).isSome then (blockMembers fuel l.indent (l::rest)).map fun (ms,ls) => (.map ms,ls)
    else (inlineValue l.text).map fun v => (v,rest)

-- The value of a member or item that its own line does not hold: deeper lines, or,
-- for a member, a list at the member's own indent.
def nested : Nat → Bool → Nat → List Line → Option (Yaml × List Line)
  | 0,_,_,_ => none
  | _,_,_,[] => some (empty,[])
  | fuel+1,member,indent,l::rest =>
    if indent < l.indent then block fuel (l::rest)
    else if member && l.indent == indent && (itemOf? l.text).isSome then
      (blockItems fuel indent (l::rest)).map fun (vs,ls) => (.list vs,ls)
    else some (empty,l::rest)

def blockMembers : Nat → Nat → List Line → Option (List (String × Yaml) × List Line)
  | 0,_,_ => none
  | _,_,[] => some ([],[])
  | fuel+1,indent,l::rest =>
    if l.indent < indent then some ([],l::rest)
    else if indent < l.indent then none
    else match keyOf? l.text with
      | none => none
      | some (name,r) =>
        let value := if isLineEnd r then nested fuel true indent rest else (inlineValue r).map fun v => (v,rest)
        match value with
        | none => none
        | some (v,ls) => (blockMembers fuel indent ls).map fun (ms,ls) => ((name,v)::ms,ls)

def blockItems : Nat → Nat → List Line → Option (List Yaml × List Line)
  | 0,_,_ => none
  | _,_,[] => some ([],[])
  | fuel+1,indent,l::rest =>
    if l.indent < indent then some ([],l::rest)
    else if indent < l.indent then none
    else match itemOf? l.text with
      | none => some ([],l::rest)
      | some (distance,body) =>
        let value := if isLineEnd body then nested fuel false indent rest
          else block fuel (⟨indent+distance,body⟩::rest)
        match value with
        | none => none
        | some (v,ls) => (blockItems fuel indent ls).map fun (vs,ls) => (v::vs,ls)
end

def lineOf (s : Rest) : Option (Option Line) :=
  let body := s.dropWhile (· == ' ')
  match body with
  | [] => some none
  | '\t'::_ => none
  | '#'::_ => some none
  | _ => some (some ⟨s.length-body.length,body⟩)

def dropReturn (s : Rest) : Rest :=
  match s.reverse with
  | '\r'::r => r.reverse
  | _ => s

def markOf (c : Char) (l : Line) : Option Rest :=
  match l.indent,l.text with
  | 0,x::y::z::r => if x = c && y = c && z = c && startsBlank r then some r else none
  | _,_ => none

-- Leaves out the mark at the start of a document and what ends it; another document is refused.
def single? (ls : List Line) : Option (List Line) :=
  let ls := match ls with
    | l::rest => match markOf '-' l with
      | some r => if isLineEnd r then some rest else if (keyOf? (spaces r)).isSome then none else some (⟨4,spaces r⟩::rest)
      | none => some ls
    | [] => some []
  ls.bind fun ls =>
  let body := ls.takeWhile fun l => (markOf '.' l).isNone
  let after := ls.drop (body.length+1)
  if body.any (fun l => (markOf '-' l).isSome) || !after.isEmpty then none else some body

def isPrintable (c : Char) : Bool :=
  let n := c.toNat
  n == 9 || n == 10 || n == 13 || (0x20 ≤ n && n ≤ 0x7E) || n == 0x85 || (0xA0 ≤ n && n != 0xFEFF && n != 0xFFFE && n != 0xFFFF)

def read? (s : String) : Option Yaml :=
  if !s.toList.all isPrintable then none else
  match (Text.splitAt '\n' s.toList).mapM fun l => lineOf (dropReturn l) with
  | none => none
  | some ls => match single? (ls.filterMap id) with
    | none => none
    | some ls => match block (4*s.length+4) ls with
      | some (v,[]) => some v
      | _ => none

end ModbusMaster.Yaml
