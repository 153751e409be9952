import ModbusMaster.Bytes
import ModbusMaster.Text.Blank
namespace ModbusMaster.Text.Hex

-- Octet strings written with two hexadecimal digits an octet.

def digit (n : Nat) : Char := if n < 10 then Char.ofNat (48+n) else Char.ofNat (87+n)
def upperDigit (n : Nat) : Char := if n < 10 then Char.ofNat (48+n) else Char.ofNat (55+n)

def encode (b : Bytes) : List Char := b.flatMap fun x => [digit (x.toNat/16),digit (x.toNat%16)]
def encodeUpper (b : Bytes) : List Char := b.flatMap fun x => [upperDigit (x.toNat/16),upperDigit (x.toNat%16)]

def lower (b : Bytes) : String := String.ofList (encode b)
def upper (b : Bytes) : String := String.ofList (encodeUpper b)

def spaced (b : Bytes) : String := String.intercalate " " (b.map fun x => upper [x])

def marked (b : Bytes) : String := "0x" ++ upper b

def number (width n : Nat) : String :=
  let s := String.ofList (Nat.toDigits 16 n)
  String.ofList (List.replicate (width-s.length) '0') ++ s

def numberUpper (width n : Nat) : String := String.ofList (Text.upperAscii (number width n).toList)

def value? (x : UInt8) : Option UInt8 :=
  if 48 ≤ x && x ≤ 57 then some (x-48)
  else if 65 ≤ x && x ≤ 70 then some (x-55)
  else if 97 ≤ x && x ≤ 102 then some (x-87)
  else none

-- Why a text is no hexadecimal value: nothing after the marker, or the first
-- octet that is no digit and its place.
inductive Refusal where
  | empty
  | badDigit (octet : UInt8) (place : Nat)
  deriving Repr, DecidableEq

def decodeFrom (place : Nat) : Bytes → Except Refusal Bytes
  | [] => .ok []
  | [x] => .error (.badDigit x place)
  | x::y::rest =>
    match value? x with
    | none => .error (.badDigit x place)
    | some hi => match value? y with
      | none => .error (.badDigit y (place+1))
      | some lo => match decodeFrom (place+2) rest with
        | .error e => .error e
        | .ok b => .ok ((hi*16+lo)::b)

def stripMark : List Char → List Char
  | '0' :: 'x' :: rest => rest
  | '0' :: 'X' :: rest => rest
  | s => s

def evened (b : Bytes) : Bytes := if b.length%2 == 1 then 48::b else b

def parse? (s : String) : Except Refusal Bytes :=
  let digits := (String.ofList (stripMark (trim s.toList))).toUTF8.toList
  if digits.isEmpty then .error .empty else decodeFrom 0 (evened digits)

def strict? (s : String) : Option Bytes :=
  match decodeFrom 0 s.toUTF8.toList with
  | .ok b => some b
  | .error _ => none

end ModbusMaster.Text.Hex
