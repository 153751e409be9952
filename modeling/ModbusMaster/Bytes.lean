namespace ModbusMaster

-- Octet strings as they travel on a line, first octet first.
abbrev Bytes := List UInt8

namespace Bytes

def be16 (w : UInt16) : Bytes := [(w >>> 8).toUInt8,w.toUInt8]

def le16 (w : UInt16) : Bytes := [w.toUInt8,(w >>> 8).toUInt8]

def word (hi lo : UInt8) : UInt16 := (hi.toUInt16 <<< 8) ||| lo.toUInt16

def toNat (b : Bytes) : Nat := b.foldl (fun n x => n*256+x.toNat) 0

def ofNat : Nat → Nat → Bytes
  | 0,_ => []
  | len+1,n => ofNat len (n/256) ++ [UInt8.ofNat n]

-- Exactly `len` octets that keep the less significant end: zeros are added in
-- front, or octets are dropped there.
def fit (b : Bytes) (len : Nat) : Bytes :=
  List.replicate (len-b.length) 0 ++ b.drop (b.length-len)

@[simp] theorem length_be16 (w : UInt16) : (be16 w).length = 2 := rfl
@[simp] theorem length_le16 (w : UInt16) : (le16 w).length = 2 := rfl

theorem length_fit (b : Bytes) (len : Nat) : (b.fit len).length = len := by
  simp only [fit,List.length_append,List.length_replicate,List.length_drop]
  omega

theorem length_ofNat (len n : Nat) : (ofNat len n).length = len := by
  induction len generalizing n with
  | zero => rfl
  | succ len ih => simp [ofNat,ih]

end Bytes
end ModbusMaster
