import ModbusMaster.OpenRequest
namespace ModbusMaster

def OpenRequest.polls (r : OpenRequest) (key : String) : Bool := r.kind == .periodic && r.point.key == key

namespace OpenRequests
variable {t u : OpenRequests} {r : OpenRequest} {id : UInt16}

theorem free?_fresh {fuel : Nat} {last : UInt16} (found : t.free? fuel last = some id) :
    t.requests.contains id = false := by
  induction fuel generalizing last with
  | zero => cases found
  | succ fuel ih =>
    simp only [free?] at found
    split at found
    · exact ih found
    · rename_i absent
      cases Option.some.inj found
      exact Bool.eq_false_iff.mpr absent

theorem register?_some (registered : t.register? r = some (id,u)) :
    t.requests.contains id = false ∧ u.requests = t.requests.insert id r := by
  unfold register? at registered
  dsimp only at registered
  split at registered
  · cases registered
  · split at registered
    · cases registered
    · rename_i fresh found
      cases Option.some.inj registered
      refine ⟨?_,rfl⟩
      unfold allocate? at found
      split at found
      · cases found
      · exact free?_fresh found

theorem compare_key (a b : String) : (compare a b == .eq) = (a == b) := by
  rw [Bool.eq_iff_iff,beq_iff_eq,beq_iff_eq]
  exact Std.LawfulEqCmp.compare_eq_iff_eq

-- A point is awaited from the time that a periodic read of it is registered, which is
-- refused if it is awaited already, until that read is taken out.
theorem register?_isAwaiting (registered : t.register? r = some (id,u)) (key : String) :
    u.isAwaiting key = (t.isAwaiting key || r.polls key) ∧ (r.polls key = true → t.isAwaiting key = false) := by
  unfold register? at registered
  dsimp only at registered
  split at registered
  · cases registered
  · rename_i idle
    split at registered
    · cases registered
    · cases Option.some.inj registered
      unfold isAwaiting OpenRequest.polls at *
      cases periodic : r.kind == .periodic with
      | false => simp
      | true =>
        have idle : t.awaiting.contains r.point.key = false := by
          rw [periodic] at idle
          exact Bool.eq_false_iff.mpr idle
        refine ⟨?_,?_⟩
        · simp only [if_true,Std.TreeSet.contains_insert,compare_key,Bool.true_and]
          exact Bool.or_comm _ _
        · intro same
          rw [Bool.true_and,beq_iff_eq] at same
          exact same ▸ idle

theorem register?_fresh (registered : t.register? r = some (id,u)) : t.requests[id]? = none := by
  have absent := (register?_some registered).1
  rw [Std.TreeMap.contains_eq_isSome_getElem?] at absent
  exact Option.not_isSome_iff_eq_none.mp (by simp [absent])

theorem register?_get? (registered : t.register? r = some (id,u)) (other : UInt16) :
    u.requests[other]? = if id = other then some r else t.requests[other]? := by
  rw [(register?_some registered).2]
  simp [Std.TreeMap.getElem?_insert]

theorem take?_open (here : t.requests[id]? = some r) : ∃ u, t.take? id = some (r,u) := by
  simp [take?,here]

theorem take?_none : t.take? id = none ↔ t.requests[id]? = none := by
  unfold take?
  cases t.requests[id]? <;> simp

theorem take?_some (taken : t.take? id = some (r,u)) : t.requests[id]? = some r := by
  unfold take? at taken
  split at taken
  · cases taken
  · rename_i here
    cases Option.some.inj taken
    exact here

theorem take?_isAwaiting (taken : t.take? id = some (r,u)) (key : String) :
    u.isAwaiting key = (t.isAwaiting key && !r.polls key) := by
  unfold take? at taken
  split at taken
  · cases taken
  · cases Option.some.inj taken
    unfold isAwaiting OpenRequest.polls
    cases r.kind == .periodic with
    | false => simp
    | true =>
      simp only [if_true,Std.TreeSet.contains_erase,bne,compare_key,Bool.true_and]
      exact Bool.and_comm _ _

theorem take?_get? (taken : t.take? id = some (r,u)) (other : UInt16) :
    u.requests[other]? = if id = other then none else t.requests[other]? := by
  unfold take? at taken
  split at taken
  · cases taken
  · cases Option.some.inj taken
    simp [Std.TreeMap.getElem?_erase]

theorem len_eq_zero (none : ∀ id : UInt16, t.requests[id]? = none) : t.len = 0 := by
  have empty : t.requests.isEmpty = true := by
    rw [Std.TreeMap.isEmpty_iff_forall_contains]
    intro id
    rw [Std.TreeMap.contains_eq_isSome_getElem?,none,Option.isSome_none]
  simpa [len,Std.TreeMap.isEmpty_eq_size_eq_zero] using empty

theorem register?_take? (registered : t.register? r = some (id,u)) :
    ∃ v, u.take? id = some (r,v) ∧ ∀ other : UInt16, v.requests[other]? = t.requests[other]? := by
  have here : u.requests[id]? = some r := by rw [register?_get? registered,if_pos rfl]
  obtain ⟨v,taken⟩ := take?_open here
  refine ⟨v,taken,?_⟩
  intro other
  rw [take?_get? taken,register?_get? registered]
  split
  · rename_i same
    subst same
    exact (register?_fresh registered).symm
  · rfl

end OpenRequests
end ModbusMaster
