import ModbusMaster.Fault
namespace ModbusMaster.Limits

-- What a device may be asked for.

-- Zero addresses every unit and is never answered, 248 to 254 are reserved;
-- 255 is common for devices on a network of their own.
def unitValid (unit : UInt8) : Bool := unit != 0 && !(248 ≤ unit && unit ≤ 254)

def checkUnit (unit : UInt8) : Except Fault Unit :=
  if unitValid unit then .ok () else .error (.invalidData ("Invalid unit id: " ++ toString unit.toNat))

structure Bounds where
  min : UInt16
  max : UInt16
  deriving Repr, DecidableEq

-- The quantities a function takes; none if it carries no quantity. For file
-- records the quantity is the byte count.
def bounds? : Function → Option Bounds
  | .readCoils => some ⟨1,2000⟩
  | .readDiscreteInputs => some ⟨1,2000⟩
  | .readHoldingRegisters => some ⟨1,125⟩
  | .readInputRegisters => some ⟨1,125⟩
  | .writeMultipleCoils => some ⟨1,1968⟩
  | .writeMultipleRegisters => some ⟨1,123⟩
  | .readWriteMultipleRegisters => some ⟨1,121⟩
  | .readFileRecord => some ⟨7,245⟩
  | .writeFileRecord => some ⟨7,245⟩
  | _ => none

def byteCount? (f : Function) (quantity : UInt16) : Option Nat :=
  match f with
  | .writeMultipleCoils => some ((quantity.toNat+7)/8)
  | .writeMultipleRegisters => some (quantity.toNat*2)
  | .readWriteMultipleRegisters => some (quantity.toNat*2)
  | _ => none

inductive Violation where
  | outside (f : Function) (quantity : UInt16) (bounds : Bounds)
  | byteCount (f : Function) (quantity given : UInt16) (expected : Nat)
  deriving Repr, DecidableEq

def Violation.message : Violation → String
  | .outside f q b =>
    f.text ++ ": quantity " ++ toString q.toNat ++ " outside " ++ toString b.min.toNat ++ "..=" ++ toString b.max.toNat
  | .byteCount f q given expected =>
    f.text ++ ": byte count " ++ toString given.toNat ++ " does not match quantity " ++ toString q.toNat ++
      " (expected " ++ toString expected ++ ")"

def Violation.fault (v : Violation) : Fault := .invalidData v.message

def checkQuantity (f : Function) (quantity byteCount : UInt16) : Except Violation Unit :=
  match bounds? f with
  | none => .ok ()
  | some b =>
    if quantity < b.min || b.max < quantity then .error (.outside f quantity b) else
    match byteCount? f quantity with
    | none => .ok ()
    | some expected =>
      if byteCount == 0 || byteCount.toNat != expected then .error (.byteCount f quantity byteCount expected)
      else .ok ()

end ModbusMaster.Limits
