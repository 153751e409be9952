import ModbusMaster.Transaction
namespace ModbusMaster.TransactionTable
variable {t u : TransactionTable} {r : TransactionRecord} {id : UInt16}

-- What each operation of the table does to the records it holds, and to its cursor.

theorem contains_get? (t : TransactionTable) (id : UInt16) : t.contains id = (t.get? id).isSome := by
  simp only [contains,get?]
  exact Std.TreeMap.contains_eq_isSome_getElem?

@[simp] theorem get?_empty (capacity : Nat) (maxId : UInt16) (id : UInt16) : (empty capacity maxId).get? id = none := by
  simp [empty,get?]

@[simp] theorem get?_release (t : TransactionTable) (id other : UInt16) :
    (t.release id).get? other = if id = other then none else t.get? other := by
  simp [release,get?,Std.TreeMap.getElem?_erase]


theorem free?_fresh {fuel : Nat} {start : UInt16} (found : t.free? fuel start = some id) : t.contains id = false := by
  induction fuel generalizing start with
  | zero => cases found
  | succ fuel ih =>
    simp only [free?] at found
    split at found
    · exact ih found
    · rename_i absent
      cases Option.some.inj found
      exact Bool.eq_false_iff.mpr absent

theorem reserve?_some (taken : t.reserve? r = some (id,u)) :
    t.len < t.capacity ∧ t.free? (t.len+1) t.next = some id ∧
      u = {t with records:=t.records.insert id r,next:=t.advance id} := by
  unfold reserve? at taken
  split at taken
  · cases taken
  · rename_i room
    split at taken
    · cases taken
    · rename_i fresh found
      cases Option.some.inj taken
      exact ⟨by simpa [isFull] using room,found,rfl⟩

theorem reserve?_fresh (taken : t.reserve? r = some (id,u)) : t.get? id = none := by
  have absent := free?_fresh (reserve?_some taken).2.1
  rw [contains_get?] at absent
  exact Option.not_isSome_iff_eq_none.mp (by simp [absent])

theorem reserve?_get? (taken : t.reserve? r = some (id,u)) (other : UInt16) :
    u.get? other = if id = other then some r else t.get? other := by
  obtain ⟨_,_,rfl⟩ := reserve?_some taken
  simp [get?,Std.TreeMap.getElem?_insert]

theorem reserve?_release (taken : t.reserve? r = some (id,u)) (other : UInt16) :
    (u.release id).get? other = t.get? other := by
  rw [get?_release,reserve?_get? taken]
  split
  · rename_i same
    subst same
    exact (reserve?_fresh taken).symm
  · rfl

end ModbusMaster.TransactionTable
