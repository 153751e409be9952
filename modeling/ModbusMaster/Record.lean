import ModbusMaster.Number.Double
namespace ModbusMaster.Record

-- Records read from named values, whatever format the values come in.

structure Source (α : Type) where
  natural? : α → Option Nat
  integer? : α → Option Int
  number? : α → Option Double
  flag? : α → Option Bool
  text? : α → Option String
  variant? : α → Option String
  isNull : α → Bool

inductive Problem where
  | malformed
  | missing (field : String)
  deriving Repr, DecidableEq

section
variable {α β : Type}

-- A field that may be absent; if it is there it must be well formed.
def optional (get : String → Option α) (read : α → Option β) (name : String) : Except Problem (Option β) :=
  match get name with
  | none => .ok none
  | some v => match read v with
    | some x => .ok (some x)
    | none => .error .malformed

def required (name : String) : Option β → Except Problem β
  | some x => .ok x
  | none => .error (.missing name)

def nullable (s : Source α) (read : α → Option β) (v : α) : Option (Option β) :=
  if s.isNull v then some none else (read v).map some

def Source.bits? (s : Source α) (bits : Nat) (v : α) : Option Nat :=
  (s.natural? v).bind fun n => if n < Number.pow2 bits then some n else none

def Source.byte? (s : Source α) (v : α) : Option UInt8 := (s.bits? 8 v).map UInt8.ofNat
def Source.word? (s : Source α) (v : α) : Option UInt16 := (s.bits? 16 v).map UInt16.ofNat

def Source.signed? (s : Source α) (v : α) : Option Int :=
  (s.integer? v).bind fun i => if -0x8000000000000000 ≤ i ∧ i < 0x8000000000000000 then some i else none

variable {s : Source α} {get : String → Option α} {read : α → Option β} {name : String} {v : α} {x : β} {bits n : Nat}

theorem optional_some (found : optional get read name = .ok (some x)) : ∃ v, read v = some x := by
  unfold optional at found
  split at found
  · cases found
  · rename_i v _
    split at found
    · rename_i y known
      cases found
      exact ⟨v,known⟩
    · cases found

theorem nullable_some (known : nullable s read v = some (some x)) : read v = some x := by
  unfold nullable at known
  split at known
  · cases known
  · obtain ⟨y,known,same⟩ := Option.map_eq_some_iff.mp known
    cases same
    exact known

theorem bits?_lt (known : s.bits? bits v = some n) : n < Number.pow2 bits := by
  obtain ⟨m,_,known⟩ := Option.bind_eq_some_iff.mp known
  split at known
  · rename_i below
    cases known
    exact below
  · cases known

theorem optional_bits {found : Option Nat} (known : optional get (s.bits? bits) name = .ok found)
    (least : n < Number.pow2 bits) : found.getD n < Number.pow2 bits := by
  cases found with
  | none => exact least
  | some m =>
    obtain ⟨v,read⟩ := optional_some known
    exact bits?_lt read
end

end ModbusMaster.Record
