import ModbusMaster.Point.Basic
import ModbusMaster.Text.Utf8
import ModbusMaster.Text.Escape
namespace ModbusMaster

inductive Scaled where
  | bool (b : Bool)
  | int (i : Int)
  | uint (n : Nat)
  | float (x : Double)
  | text (s : String)
  deriving Repr, DecidableEq

def hexValue (s : String) : Except Fault Bytes :=
  match Text.Hex.parse? s with
  | .ok b => .ok b
  | .error .empty => .error (.invalidData ("Empty hex value '" ++ s ++ "'"))
  | .error (.badDigit octet place) =>
    .error (.invalidData ("Invalid hex value '" ++ s ++ "': Invalid character " ++
      Text.Escape.quotedLatin (Char.ofNat octet.toNat) ++ " at position " ++ toString place))

theorem hexValue_ok_iff {s : String} {b : Bytes} : hexValue s = .ok b ↔ Text.Hex.parse? s = .ok b := by
  unfold hexValue
  cases Text.Hex.parse? s with
  | ok b' => simp only [Except.ok.injEq]
  | error e => cases e <;> exact iff_of_false (fun wrong => nomatch wrong) (fun wrong => nomatch wrong)

namespace Point

-- What a device sent for a point, in hexadecimal: registers in the order of the
-- value, bits packed as they came.
def format (p : Point) (data : Bytes) : String :=
  Text.Hex.marked (if p.registerType.isBit then data else p.order.invert data)

end Point

namespace Scaled

def signedOf (bits n : Nat) : Int := if n < Number.pow2 (bits-1) then n else (n : Int)-Number.pow2 bits

def integerBits? (width : UInt16) : Option Nat :=
  if width = 1 then some 16 else if width = 2 then some 32 else if width = 4 then some 64 else none

def trimNul (s : String) : String := String.ofList (s.toList.reverse.dropWhile (· == '\x00')).reverse

-- Reads hexadecimal digits as a value of the declared type and width and applies
-- the scale; integers keep what is before the point.
def ofHex (hex : String) (t : ValueType) (scale : Double) (width : UInt16) : Except Fault Scaled :=
  match hexValue hex with
  | .error f => .error f
  | .ok b =>
    let badWidth : Fault := .invalidData ("width " ++ toString width.toNat ++ " not valid for " ++ t.name)
    match t with
    | .boolean => .ok (.bool (b.any (· != 0)))
    | .int => match integerBits? width with
      | none => .error badWidth
      | some bits =>
        let n := signedOf bits (b.fit (width.toNat*2)).toNat
        .ok (.int (((Double.ofInt n).mul scale).truncate (-0x8000000000000000) 0x7FFFFFFFFFFFFFFF))
    | .uint => match integerBits? width with
      | none => .error badWidth
      | some _ =>
        let n := (b.fit (width.toNat*2)).toNat
        .ok (.uint (((Double.ofNat n).mul scale).truncate 0 0xFFFFFFFFFFFFFFFF).toNat)
    | .float =>
      if width = 2 then .ok (.float ((Double.ofSingleBits (b.fit 4).toNat).mul scale)) else .error badWidth
    | .double =>
      if width = 4 then .ok (.float ((Double.ofBits (b.fit 8).toNat).mul scale)) else .error badWidth
    | .string => .ok (.text (trimNul (Text.Utf8.decode b)))

end Scaled
end ModbusMaster
