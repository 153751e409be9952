import ModbusMaster.Text.Hex
namespace ModbusMaster

inductive IpAddress where
  | v4 (a b c d : UInt8)
  | v6 (groups : List UInt16)
  deriving Repr, DecidableEq, Inhabited

-- The scope tells links apart and is there for version 6 only.
structure SocketAddress where
  ip : IpAddress
  scope : Nat
  port : UInt16
  deriving Repr, DecidableEq, Inhabited

namespace IpAddress

abbrev Rest := List Char

def number? (radix limit : Nat) (most : Option Nat) (s : Rest) : Option (Nat × Rest) :=
  let value (c : Char) : Option Nat :=
    let n := c.toNat
    let d := if 48 ≤ n && n ≤ 57 then n-48 else if 65 ≤ n && n ≤ 70 then n-55 else if 97 ≤ n && n ≤ 102 then n-87 else 99
    if d < radix then some d else none
  let ds := (s.takeWhile fun c => (value c).isSome).filterMap value
  let n := ds.foldl (fun n d => n*radix+d) 0
  let fits := match most with
    | some k => ds.length ≤ k
    | none => true
  if ds.isEmpty || !fits || limit ≤ n then none else some (n,s.drop ds.length)

def octet? (s : Rest) : Option (UInt8 × Rest) :=
  match number? 10 256 (some 3) s with
  | none => none
  | some (n,rest) =>
    if s.head? == some '0' && rest.length+1 < s.length then none else some (UInt8.ofNat n,rest)

def after? (c : Char) (s : Rest) : Option Rest :=
  match s with
  | x::rest => if x = c then some rest else none
  | [] => none

def readV4? (s : Rest) : Option (IpAddress × Rest) := do
  let (a,s) ← octet? s
  let (b,s) ← octet? (← after? '.' s)
  let (c,s) ← octet? (← after? '.' s)
  let (d,s) ← octet? (← after? '.' s)
  some (.v4 a b c d,s)

def pairV4 (a b c d : UInt8) : List UInt16 := [Bytes.word a b,Bytes.word c d]

-- Up to `limit` groups with colons between them; an IPv4 address may stand for
-- the last two and ends them, which the mark says.
def groups (first : Bool) : Nat → Rest → List UInt16 × Bool × Rest
  | 0,s => ([],false,s)
  | limit+1,s =>
    let inside := if first then some s else after? ':' s
    let tail := match limit,inside with
      | 0,_ => none
      | _,none => none
      | _+1,some t => readV4? t
    match tail with
    | some (.v4 a b c d,rest) => (pairV4 a b c d,true,rest)
    | _ => match inside.bind (number? 16 65536 (some 4)) with
      | none => ([],false,s)
      | some (n,rest) =>
        let (more,mapped,rest) := groups false limit rest
        (UInt16.ofNat n::more,mapped,rest)

def readV6? (s : Rest) : Option (IpAddress × Rest) :=
  let (head,mapped,rest) := groups true 8 s
  if head.length = 8 then some (.v6 head,rest)
  else if mapped then none
  else match rest with
    | ':' :: ':' :: rest =>
      let (tail,_,rest) := groups true (7-head.length) rest
      some (.v6 (head ++ List.replicate (8-head.length-tail.length) 0 ++ tail),rest)
    | _ => none

def read? (s : Rest) : Option (IpAddress × Rest) :=
  match readV4? s with
  | some r => some r
  | none => readV6? s

def parse? (s : String) : Option IpAddress :=
  match read? s.toList with
  | some (ip,[]) => some ip
  | _ => none

def hexGroups (gs : List UInt16) : String :=
  String.intercalate ":" (gs.map fun g => Text.Hex.number 1 g.toNat)

def longestZeros (gs : List UInt16) : Nat × Nat :=
  let runAt (i : Nat) : Nat := ((gs.drop i).takeWhile (· == 0)).length
  (List.range gs.length).foldl (fun best i => if best.2 < runAt i then (i,runAt i) else best) (0,0)

def textV4 (a b c d : UInt8) : String := String.intercalate "." ([a,b,c,d].map fun x => toString x.toNat)

def text : IpAddress → String
  | v4 a b c d => textV4 a b c d
  | v6 gs =>
    match gs with
    | [0,0,0,0,0,0xFFFF,x,y] =>
      "::ffff:" ++ textV4 (x >>> 8).toUInt8 x.toUInt8 (y >>> 8).toUInt8 y.toUInt8
    | _ =>
      let (start,len) := longestZeros gs
      if 1 < len then hexGroups (gs.take start) ++ "::" ++ hexGroups (gs.drop (start+len)) else hexGroups gs

end IpAddress

namespace SocketAddress

def readPort? (s : List Char) : Option (UInt16 × List Char) := do
  let (n,rest) ← IpAddress.number? 10 65536 none (← IpAddress.after? ':' s)
  some (UInt16.ofNat n,rest)

def readV6? (s : List Char) : Option (SocketAddress × List Char) := do
  let (ip,s) ← IpAddress.readV6? (← IpAddress.after? '[' s)
  let (scope,s) := ((IpAddress.after? '%' s).bind (IpAddress.number? 10 0x100000000 none)).getD (0,s)
  let (port,s) ← readPort? (← IpAddress.after? ']' s)
  some (⟨ip,scope,port⟩,s)

def readV4? (s : List Char) : Option (SocketAddress × List Char) := do
  let (ip,s) ← IpAddress.readV4? s
  let (port,s) ← readPort? s
  some (⟨ip,0,port⟩,s)

def parse? (s : String) : Option SocketAddress :=
  match (match readV4? s.toList with
    | some r => some r
    | none => readV6? s.toList) with
  | some (a,[]) => some a
  | _ => none

def text (a : SocketAddress) : String :=
  let port := ":" ++ toString a.port.toNat
  match a.ip with
  | .v4 .. => a.ip.text ++ port
  | .v6 _ => "[" ++ a.ip.text ++ (if a.scope = 0 then "" else "%" ++ toString a.scope) ++ "]" ++ port

end SocketAddress
end ModbusMaster
