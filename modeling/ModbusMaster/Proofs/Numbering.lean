import Mathlib.Data.List.Nodup
import Mathlib.Data.List.Perm.Subperm
import Mathlib.Data.Nat.Find
import Mathlib.Data.Nat.ModEq
namespace ModbusMaster.Numbering
variable {last : UInt16} {m n i j : Nat} {used : List UInt16}

-- Ids that run from 1 to a last one and then start again. Transactions are numbered so,
-- and the references of requests for points.

def next (last id : UInt16) : UInt16 := if last ≤ id then 1 else id+1

def nth (last : UInt16) (n : Nat) : UInt16 := UInt16.ofNat (1+n%last.toNat)

theorem nth_toNat (some : 0 < last.toNat) (n : Nat) : (nth last n).toNat = 1+n%last.toNat := by
  have turn := Nat.mod_lt n some
  have bound : last.toNat < UInt16.size := last.toNat_lt
  exact UInt16.toNat_ofNat_of_lt' (by omega)

theorem nth_range (some : 0 < last.toNat) (n : Nat) : 1 ≤ nth last n ∧ nth last n ≤ last := by
  have turn := Nat.mod_lt n some
  rw [UInt16.le_iff_toNat_le,UInt16.le_iff_toNat_le,nth_toNat some]
  exact ⟨Nat.le_add_right 1 _,by omega⟩

theorem next_nth (some : 0 < last.toNat) (n : Nat) : next last (nth last n) = nth last (n+1) := by
  have turn := Nat.mod_lt n some
  have bound := last.toNat_lt
  apply UInt16.toNat_inj.mp
  rw [nth_toNat some,next]
  split
  · rename_i reached
    have full : 1+n%last.toNat = last.toNat := by
      have := UInt16.le_iff_toNat_le.mp reached
      rw [nth_toNat some] at this
      omega
    have wrapped : (n+1)%last.toNat = 0 := by
      rw [← Nat.mod_add_mod,Nat.add_comm,full,Nat.mod_self]
    rw [wrapped]
    rfl
  · rename_i below
    have below : 1+n%last.toNat < last.toNat := by
      have := mt UInt16.le_iff_toNat_le.mpr below
      rw [nth_toNat some] at this
      omega
    have counted : (n+1)%last.toNat = n%last.toNat+1 := by
      rw [← Nat.mod_add_mod,Nat.mod_eq_of_lt (by omega)]
    rw [UInt16.toNat_add,nth_toNat some,counted]
    exact Nat.mod_eq_of_lt (show 1+n%last.toNat+1 < 65536 by omega)

theorem next_reaches (last id : UInt16) : ∃ n, next last id = nth last n := by
  rcases Nat.lt_or_ge id.toNat last.toNat with below | beyond
  · refine ⟨id.toNat,?_⟩
    have some : 0 < last.toNat := by omega
    have bound := last.toNat_lt
    apply UInt16.toNat_inj.mp
    rw [nth_toNat some,Nat.mod_eq_of_lt below,next,if_neg (by rw [UInt16.le_iff_toNat_le]; omega),UInt16.toNat_add]
    exact (Nat.mod_eq_of_lt (show id.toNat+1 < 65536 by omega)).trans (Nat.add_comm _ _)
  · refine ⟨0,?_⟩
    rw [next,if_pos (UInt16.le_iff_toNat_le.mpr beyond),nth,Nat.zero_mod]
    rfl

theorem nth_turns (some : 0 < last.toNat) (same : nth last m = nth last n) : m%last.toNat = n%last.toNat := by
  have := congrArg UInt16.toNat same
  rw [nth_toNat some,nth_toNat some] at this
  omega

theorem nth_distinct (low : i < last.toNat) (high : j < last.toNat) (same : nth last (n+i) = nth last (n+j)) : i = j := by
  have turns : i ≡ j [MOD last.toNat] := Nat.ModEq.add_left_cancel' n (nth_turns (by omega) same)
  exact turns.eq_of_lt_of_lt low high

theorem nodup_round (fits : m ≤ last.toNat) : ((List.range m).map fun j => nth last (n+j)).Nodup := by
  apply List.Nodup.map_on _ List.nodup_range
  intro i low j high same
  rw [List.mem_range] at low high
  exact nth_distinct (by omega) (by omega) same

-- With fewer ids in use than there are, one that is not in use comes before more have been
-- passed than are in use: those passed are all different.
theorem unused_ahead (few : used.length < last.toNat) (n : Nat) :
    ∃ k, k ≤ used.length ∧ nth last (n+k) ∉ used ∧ ∀ j, j < k → nth last (n+j) ∈ used := by
  have some : ∃ k, k ≤ used.length ∧ nth last (n+k) ∉ used := by
    refine Classical.byContradiction ?_
    intro none
    have inside : (List.range (used.length+1)).map (fun j => nth last (n+j)) ⊆ used := by
      intro x member
      obtain ⟨k,below,rfl⟩ := List.mem_map.mp member
      rw [List.mem_range] at below
      exact Classical.byContradiction fun unused => none ⟨k,by omega,unused⟩
    have bound := ((nodup_round (n:=n) few).subperm inside).length_le
    rw [List.length_map,List.length_range] at bound
    omega
  obtain ⟨near,unused⟩ := Nat.find_spec some
  refine ⟨Nat.find some,near,unused,?_⟩
  intro j before
  have earlier := Nat.find_min some before
  exact Classical.byContradiction fun absent => earlier ⟨by omega,absent⟩

end ModbusMaster.Numbering
