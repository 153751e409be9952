import ModbusMaster.Bytes
namespace ModbusMaster

-- How a device orders the octets of a value that spans registers.
structure WordOrder where
  byteSwap : Bool
  wordSwap : Bool
  deriving Repr, DecidableEq

namespace WordOrder

-- Exchanges the octets of every register; an odd octet at the end stays.
def swapOctets : Bytes → Bytes
  | x::y::rest => y::x::swapOctets rest
  | rest => rest

def reverseFrom : Bytes → Bytes → Bytes
  | x::y::rest,acc => reverseFrom rest (x::y::acc)
  | rest,acc => acc ++ rest

def reverseWords (b : Bytes) : Bytes := reverseFrom b []

def isIdentity (o : WordOrder) : Bool := !o.byteSwap && !o.wordSwap

def apply (o : WordOrder) (b : Bytes) : Bytes :=
  let b := if o.wordSwap then reverseWords b else b
  if o.byteSwap then swapOctets b else b

def invert (o : WordOrder) (b : Bytes) : Bytes :=
  let b := if o.byteSwap then swapOctets b else b
  if o.wordSwap then reverseWords b else b

theorem swapOctets_swapOctets (b : Bytes) : swapOctets (swapOctets b) = b := by
  fun_induction swapOctets b with
  | case1 x y rest ih => simp [swapOctets,ih]
  | case2 rest h => cases rest with
    | nil => rfl
    | cons x rest => cases rest with
      | nil => rfl
      | cons y rest => exact absurd rfl (h x y rest)

theorem length_swapOctets (b : Bytes) : (swapOctets b).length = b.length := by
  fun_induction swapOctets b with
  | case1 x y rest ih => simp [ih]
  | case2 => rfl

theorem length_reverseFrom (b acc : Bytes) : (reverseFrom b acc).length = b.length+acc.length := by
  fun_induction reverseFrom b acc with
  | case1 acc x y rest ih => simp only [ih,List.length_cons]; omega
  | case2 => simp only [List.length_append]; omega

theorem length_reverseWords (b : Bytes) : (reverseWords b).length = b.length := length_reverseFrom b []

theorem reverseFrom_odd {rest : Bytes} (odd : rest.length < 2) (acc : Bytes) : reverseFrom rest acc = acc ++ rest := by
  match rest with
  | [] => rfl
  | [x] => rfl
  | x::y::rest =>
    simp only [List.length_cons] at odd
    omega

theorem reverseFrom_append {b rest : Bytes} (even : b.length%2 = 0) (odd : rest.length < 2) (acc : Bytes) :
    reverseFrom (b ++ rest) acc = reverseFrom b (acc ++ rest) := by
  fun_induction reverseFrom b acc with
  | case1 acc x y b ih =>
    apply ih
    simp only [List.length_cons] at even
    omega
  | case2 b acc short =>
    match b with
    | [] => exact (reverseFrom_odd odd acc).trans (List.append_nil _).symm
    | [x] => cases even
    | x::y::b => exact absurd rfl (short x y b)

theorem reverseWords_reverseFrom {acc : Bytes} (even : acc.length%2 = 0) (b : Bytes) :
    reverseWords (reverseFrom b acc) = reverseFrom acc b := by
  fun_induction reverseFrom b acc with
  | case1 acc x y rest ih =>
    apply ih
    simp only [List.length_cons]
    omega
  | case2 rest acc short =>
    apply reverseFrom_append even
    match rest with
    | [] => exact Nat.zero_lt_two
    | [x] => exact Nat.one_lt_two
    | x::y::rest => exact absurd rfl (short x y rest)

theorem reverseWords_reverseWords (b : Bytes) : reverseWords (reverseWords b) = b := by
  have even : ([] : Bytes).length%2 = 0 := rfl
  exact (reverseWords_reverseFrom even b).trans (List.append_nil b)

variable (o : WordOrder) (b : Bytes)

theorem length_apply : (o.apply b).length = b.length := by
  unfold apply
  cases o.wordSwap <;> cases o.byteSwap <;> simp [length_swapOctets,length_reverseWords]

theorem invert_apply : o.invert (o.apply b) = b := by
  unfold invert apply
  cases o.wordSwap <;> cases o.byteSwap <;> simp [swapOctets_swapOctets,reverseWords_reverseWords]

theorem apply_invert : o.apply (o.invert b) = b := by
  unfold invert apply
  cases o.wordSwap <;> cases o.byteSwap <;> simp [swapOctets_swapOctets,reverseWords_reverseWords]

end WordOrder
end ModbusMaster
