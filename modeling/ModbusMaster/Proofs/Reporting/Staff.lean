import ModbusMaster.Point.Reporter
import ModbusMaster.Queue.Pool
namespace ModbusMaster

def Pool.staff (p : Pool) : List Nat := p.granted ++ p.parked

-- Every item that waits in a queue has a permit, in the queue or in the hands of a worker
-- who was woken for it. No worker is parked and awake at once.
structure Pool.Staffs {α : Type} (p : Pool) (q : BoundedQueue α) : Prop where
  counted : q.permits+p.granted.length = q.items.length
  distinct : p.staff.Nodup
  known : ∀ w ∈ p.staff, w < p.spawned

namespace BoundedQueue
variable {α : Type} {q r : BoundedQueue α} {x : α}

theorem append?_some (room : q.append? x = some r) : r = {q with items:=q.items ++ [x]} := by
  unfold append? at room
  split at room
  · cases room
  · exact (Option.some.inj room).symm

theorem takeNow_some (taken : q.takeNow = (some x,r)) :
    q.items = x::r.items ∧ q.permits = r.permits+1 := by
  unfold takeNow acquire? at taken
  split at taken
  · simp at taken
  · rename_i got permit
    cases permits : q.permits with
    | zero => simp [permits] at permit
    | succ n =>
      rw [permits] at permit
      cases Option.some.inj permit
      unfold removeFront at taken
      cases items : q.items with
      | nil => simp [items] at taken
      | cons y rest =>
        simp only [items,Prod.mk.injEq,Option.some.injEq] at taken
        obtain ⟨rfl,rfl⟩ := taken
        exact ⟨rfl,rfl⟩

theorem takeNow_none (enough : q.permits ≤ q.items.length) (taken : q.takeNow = (none,r)) :
    q.permits = 0 ∧ r = q := by
  unfold takeNow acquire? at taken
  cases permits : q.permits with
  | zero =>
    simp only [permits,Prod.mk.injEq,true_and] at taken
    exact ⟨rfl,taken.symm⟩
  | succ n =>
    cases items : q.items with
    | nil => simp [permits,items] at enough
    | cons y rest => simp [permits,removeFront,items] at taken

end BoundedQueue

namespace Pool
variable {α : Type} {p : Pool} {q r : BoundedQueue α} {x : α} {w : Nat}

theorem staffs_empty (capacity : Nat) : empty.Staffs (BoundedQueue.empty capacity : BoundedQueue α) :=
  ⟨rfl,List.nodup_nil,fun w member => by cases member⟩

theorem Staffs.enough (staffs : p.Staffs q) : q.permits ≤ q.items.length := by
  have := staffs.counted
  omega

theorem grant_staff (p : Pool) (q : BoundedQueue α) :
    (p.grant q).1.staff = p.staff ∧ (p.grant q).1.spawned = p.spawned := by
  unfold grant staff
  split
  · rename_i w rest parked
    exact ⟨by simp [parked],rfl⟩
  · exact ⟨rfl,rfl⟩

theorem grant_items (p : Pool) (q : BoundedQueue α) : (p.grant q).2.1.items = q.items := by
  unfold grant
  split <;> rfl

theorem grant_staffs (staffs : p.Staffs q) (room : q.append? x = some r) : (p.grant r).1.Staffs (p.grant r).2.1 := by
  obtain ⟨counted,distinct,known⟩ := staffs
  cases BoundedQueue.append?_some room
  obtain ⟨same,spawned⟩ := p.grant_staff {q with items:=q.items ++ [x]}
  refine ⟨?_,by rw [same]; exact distinct,by rw [same,spawned]; exact known⟩
  unfold grant
  split
  · simp only [List.length_append,List.length_singleton]
    omega
  · simp only [BoundedQueue.signal,List.length_append,List.length_singleton]
    omega

theorem grant_woken {v : Nat} (woken : (p.grant q).2.2 = some v) : v ∈ p.staff := by
  unfold grant at woken
  split at woken
  · rename_i parked
    cases Option.some.inj woken
    simp [staff,parked]
  · cases woken

theorem resume_staff (p : Pool) (q : BoundedQueue α) (w : Nat) : (p.resume q w).1.staff.Sublist p.staff ∧
    (p.resume q w).1.parked = p.parked ∧ (p.resume q w).1.spawned = p.spawned ∧ (p.resume q w).2.items = q.items := by
  unfold resume
  split
  · exact ⟨List.erase_sublist.append_right _,rfl,rfl,rfl⟩
  · exact ⟨List.Sublist.refl _,rfl,rfl,rfl⟩

theorem resume_staffs (staffs : p.Staffs q) (w : Nat) :
    (p.resume q w).1.Staffs (p.resume q w).2 ∧ w ∉ (p.resume q w).1.granted := by
  obtain ⟨counted,distinct,known⟩ := staffs
  obtain ⟨fewer,_,spawned,_⟩ := p.resume_staff q w
  refine ⟨⟨?_,distinct.sublist fewer,fun v member => spawned.symm ▸ known v (fewer.subset member)⟩,?_⟩
  · unfold resume
    split
    · rename_i holds
      have holds : w ∈ p.granted := by simpa using holds
      have := List.length_pos_of_mem holds
      simp only [BoundedQueue.signal,List.length_erase_of_mem holds]
      omega
    · exact counted
  · unfold resume
    split
    · exact (List.nodup_append.mp distinct).1.not_mem_erase
    · rename_i free
      simpa using free

theorem park_staffs (staffs : p.Staffs q) (awake : w ∉ p.granted) (standing : w ∉ p.parked) (known : w < p.spawned) :
    (p.park w).Staffs q := by
  have more : (p.park w).staff = p.staff ++ [w] := (List.append_assoc _ _ _).symm
  refine ⟨staffs.counted,?_,?_⟩
  · rw [more]
    apply (List.perm_append_singleton w p.staff).nodup_iff.mpr
    exact List.nodup_cons.mpr ⟨by simp [staff,awake,standing],staffs.distinct⟩
  · intro v member
    rw [more] at member
    rcases List.mem_append.mp member with old | new
    · exact staffs.known v old
    · rw [List.mem_singleton.mp new]
      exact known

theorem leave_staff (p : Pool) (w : Nat) : (p.leave w).staff.Sublist p.staff := List.erase_sublist.append_left _

theorem leave_staffs (staffs : p.Staffs q) (w : Nat) : (p.leave w).Staffs q :=
  ⟨staffs.counted,staffs.distinct.sublist (p.leave_staff w),fun v member => staffs.known v ((p.leave_staff w).subset member)⟩

theorem leave_gone (staffs : p.Staffs q) (awake : w ∉ p.granted) : w ∉ (p.leave w).staff := by
  intro member
  rcases List.mem_append.mp member with granted | parked
  · exact awake granted
  · exact (List.nodup_append.mp staffs.distinct).2.1.not_mem_erase parked

theorem spawn_staffs (staffs : p.Staffs q) (count : Nat) : (p.spawn count).1.Staffs q := by
  refine ⟨staffs.counted,staffs.distinct,?_⟩
  intro w member
  have := staffs.known w member
  simp only [spawn]
  omega

theorem take_staffs (staffs : p.Staffs q) (taken : q.takeNow = (some x,r)) : p.Staffs r := by
  obtain ⟨items,permits⟩ := BoundedQueue.takeNow_some taken
  refine ⟨?_,staffs.distinct,staffs.known⟩
  have := staffs.counted
  rw [items,List.length_cons] at this
  omega

end Pool

namespace Reporter
variable {p : Reporter} {pool : Pool}

theorem process_queue (p : Reporter) (c : Completion) : (p.process c).2.queue = p.queue := by
  unfold process
  split <;> rfl

theorem drainUpTo_staffs {n : Nat} (staffs : pool.Staffs p.queue) : pool.Staffs (drainUpTo n p).2.2.queue := by
  induction n generalizing p with
  | zero => exact staffs
  | succ n ih =>
    unfold drainUpTo
    cases taken : p.queue.takeNow with
    | mk first q =>
      cases first with
      | none => rw [(BoundedQueue.takeNow_none staffs.enough taken).2]; exact staffs
      | some c =>
        refine ih ?_
        rw [process_queue]
        exact pool.take_staffs staffs taken

theorem drainUpTo_permits {n : Nat} (enough : p.queue.permits ≤ p.queue.items.length) (tries : p.queue.permits ≤ n) :
    (drainUpTo n p).2.2.queue.permits = 0 := by
  induction n generalizing p with
  | zero => exact Nat.le_zero.mp tries
  | succ n ih =>
    unfold drainUpTo
    cases taken : p.queue.takeNow with
    | mk first q =>
      cases first with
      | none =>
        obtain ⟨finished,same⟩ := BoundedQueue.takeNow_none enough taken
        rw [same]
        exact finished
      | some c =>
        obtain ⟨items,permits⟩ := BoundedQueue.takeNow_some taken
        rw [items,List.length_cons] at enough
        refine ih ?_ ?_ <;> rw [process_queue] <;> dsimp only <;> omega

end Reporter
end ModbusMaster
