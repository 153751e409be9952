namespace ModbusMaster.Number

-- Powers of the two bases that numbers are written in.

def pow2 (n : Nat) : Nat := Nat.pow 2 n
def pow10 (n : Nat) : Nat := Nat.pow 10 n

theorem pow2_succ (n : Nat) : pow2 (n+1) = pow2 n*2 := rfl
theorem pow10_succ (n : Nat) : pow10 (n+1) = pow10 n*10 := rfl

theorem pow2_pos (n : Nat) : 0 < pow2 n := by
  induction n with
  | zero => decide
  | succ n ih => rw [pow2_succ]; omega

theorem pow10_pos (n : Nat) : 0 < pow10 n := by
  induction n with
  | zero => decide
  | succ n ih => rw [pow10_succ]; omega

end ModbusMaster.Number
