import ModbusMaster.Proofs.Transaction.Reuse
namespace ModbusMaster

structure Slot where
  id : UInt16
  reserved : TransactionRecord
  deriving Repr, DecidableEq

namespace TransactionTable
-- The search for an id with no limit to it: the ids it passes since they are in use, and
-- the one where it stops.
inductive Search (t : TransactionTable) : UInt16 → List UInt16 → UInt16 → Prop where
  | stops {id} (free : t.contains id = false) : Search t id [] id
  | passes {start passed id} (used : t.contains start = true) (onward : Search t (t.advance start) passed id) :
      Search t start (start::passed) id

variable {t u : TransactionTable} {r : TransactionRecord} {start id : UInt16} {passed : List UInt16} {n k fuel : Nat}

theorem search_free? (search : Search t start passed id) (enough : passed.length < fuel) :
    t.free? fuel start = some id := by
  induction search generalizing fuel with
  | stops free =>
    cases fuel with
    | zero => cases enough
    | succ fuel => exact if_neg (Bool.eq_false_iff.mp free)
  | passes used _ ih =>
    cases fuel with
    | zero => cases enough
    | succ fuel => exact (if_pos used).trans (ih (Nat.lt_of_succ_lt_succ enough))

theorem search_idAt (spare : t.capacity < t.maxId.toNat) (used : ∀ j, j < k → t.contains (t.idAt (n+j)) = true)
    (free : t.contains (t.idAt (n+k)) = false) :
    ∃ passed, passed.length = k ∧ Search t (t.idAt n) passed (t.idAt (n+k)) := by
  induction k generalizing n with
  | zero => exact ⟨[],rfl,.stops free⟩
  | succ k ih =>
    have shift (j : Nat) : n+1+j = n+(j+1) := by omega
    obtain ⟨passed,count,search⟩ := ih (n:=n+1) (fun j below => shift j ▸ used (j+1) (by omega)) (shift k ▸ free)
    rw [shift] at search
    exact ⟨t.idAt n::passed,congrArg (·+1) count,.passes (used 0 (by omega)) (advance_idAt spare n ▸ search)⟩

theorem live_length (t : TransactionTable) : t.live.length = t.len := Std.TreeMap.length_keys

theorem mem_live : id ∈ t.live ↔ t.contains id = true := Std.TreeMap.mem_keys

theorem search_ends (sound : Sound t) : ∃ passed id, Search t t.next passed id ∧ passed.length ≤ t.len := by
  obtain ⟨n,cursorAt⟩ := sound.cursor
  have few : t.live.length < t.maxId.toNat := by
    have := sound.spare
    have := sound.within
    rw [live_length]
    omega
  obtain ⟨k,near,unused,passed⟩ := Numbering.unused_ahead few n
  have free : t.contains (t.idAt (n+k)) = false := Bool.eq_false_iff.mpr fun used => unused (mem_live.mpr used)
  obtain ⟨ids,count,search⟩ := search_idAt sound.spare (fun j below => mem_live.mp (passed j below)) free
  exact ⟨ids,_,cursorAt ▸ search,by rw [count,← live_length]; exact near⟩

theorem reserve?_search (search : Search t t.next passed id) (short : passed.length ≤ t.len) (room : t.len < t.capacity) :
    t.reserve? r = some (id,{t with records:=t.records.insert id r,next:=t.advance id}) := by
  have open' : t.isFull = false := by simpa [isFull] using room
  simp only [reserve?,open',search_free? search (Nat.lt_succ_of_le short),Bool.false_eq_true,if_false]

theorem reserve?_none (sound : Sound t) : t.reserve? r = none ↔ t.len = t.capacity := by
  constructor
  · intro refused
    refine Classical.byContradiction ?_
    intro partly
    obtain ⟨passed,id,search,short⟩ := search_ends sound
    rw [reserve?_search search short (Nat.lt_of_le_of_ne sound.within partly)] at refused
    cases refused
  · intro full
    exact if_pos (by simp [isFull,full])

structure Tenure where
  table : TransactionTable
  slots : List Slot

-- Somebody reserves a slot, or drops the one at a place among those that are held. So a
-- slot is dropped once at most, and never by somebody who has not reserved it.
inductive Turn where
  | reserve (r : TransactionRecord)
  | drop (place : Nat)
  deriving Repr

namespace Tenure
variable {s : Tenure}

def opened (capacity : Nat) (maxId : UInt16) : Tenure := ⟨empty capacity maxId,[]⟩

def turn (s : Tenure) : Turn → Tenure
  | .reserve r => match s.table.reserve? r with
    | some (id,t) => ⟨t,s.slots ++ [⟨id,r⟩]⟩
    | none => s
  | .drop place => match s.slots[place]? with
    | some slot => ⟨s.table.release slot.id,s.slots.eraseIdx place⟩
    | none => s

def turns : Tenure → List Turn → Tenure
  | s,[] => s
  | s,a::rest => (s.turn a).turns rest

structure Held (s : Tenure) : Prop where
  sound : Sound s.table
  distinct : (s.slots.map (·.id)).Nodup
  recorded : ∀ slot ∈ s.slots, s.table.get? slot.id = some slot.reserved
  owned : ∀ id, s.table.contains id = true → ∃ slot ∈ s.slots, slot.id = id
  range : ∀ slot ∈ s.slots, 1 ≤ slot.id ∧ slot.id ≤ s.table.maxId

theorem held_opened (capacity : Nat) (maxId : UInt16) : Held (opened capacity maxId) := by
  refine ⟨sound_empty capacity maxId,List.nodup_nil,?_,?_,?_⟩
  · simp [opened]
  · intro id used
    rw [contains_get?] at used
    simp [opened] at used
  · simp [opened]

theorem held_reserve (held : Held s) (taken : s.table.reserve? r = some (id,u)) : Held ⟨u,s.slots ++ [⟨id,r⟩]⟩ := by
  obtain ⟨sound,distinct,recorded,owned,range⟩ := held
  have fresh := reserve?_fresh taken
  have other : ∀ slot ∈ s.slots, id ≠ slot.id := by
    intro slot member same
    rw [same,recorded slot member] at fresh
    cases fresh
  obtain ⟨n,cursorAt⟩ := sound.cursor
  obtain ⟨k,_,there,_⟩ := reserve?_idAt sound.spare cursorAt taken
  have size : u.maxId = s.table.maxId := by rw [(reserve?_some taken).2.2]
  refine ⟨sound_reserve sound taken,?_,?_,?_,?_⟩
  · rw [List.map_append]
    apply (List.perm_append_singleton id (s.slots.map (·.id))).nodup_iff.mpr
    refine List.nodup_cons.mpr ⟨?_,distinct⟩
    intro member
    obtain ⟨slot,among,same⟩ := List.mem_map.mp member
    exact other slot among same.symm
  · intro slot member
    rw [reserve?_get? taken]
    rcases List.mem_append.mp member with old | new
    · rw [if_neg (other slot old)]
      exact recorded slot old
    · cases List.mem_singleton.mp new
      exact if_pos rfl
  · intro x used
    rcases reserve?_used taken used with before | rfl
    · obtain ⟨slot,member,same⟩ := owned x before
      exact ⟨slot,List.mem_append_left _ member,same⟩
    · exact ⟨⟨x,r⟩,by simp,rfl⟩
  · intro slot member
    change _ ∧ slot.id ≤ u.maxId
    rw [size]
    rcases List.mem_append.mp member with old | new
    · exact range slot old
    · cases List.mem_singleton.mp new
      rw [there]
      exact Numbering.nth_range (by have := sound.spare; omega) k

theorem held_drop (held : Held s) {slot : Slot} {rest : List Slot} (perm : (slot::rest).Perm s.slots) :
    Held ⟨s.table.release slot.id,rest⟩ := by
  obtain ⟨sound,distinct,recorded,owned,range⟩ := held
  have among : ∀ x ∈ rest, x ∈ s.slots := fun x member => perm.mem_iff.mp (List.mem_cons_of_mem _ member)
  have apart := (perm.map (·.id)).nodup_iff.mpr distinct
  rw [List.map_cons,List.nodup_cons] at apart
  refine ⟨sound_release sound slot.id,apart.2,?_,?_,fun x member => range x (among x member)⟩
  · intro x member
    rw [get?_release,if_neg]
    · exact recorded x (among x member)
    · intro same
      exact apart.1 (same ▸ List.mem_map_of_mem member)
  · intro id used
    rw [contains_get?,get?_release] at used
    split at used
    · cases used
    · rename_i other
      rw [← contains_get?] at used
      obtain ⟨x,member,same⟩ := owned id used
      refine ⟨x,?_,same⟩
      rcases List.mem_cons.mp (perm.mem_iff.mpr member) with rfl | kept
      · exact absurd same other
      · exact kept

theorem held_turn (held : Held s) (a : Turn) : Held (s.turn a) := by
  cases a with
  | reserve r =>
    simp only [turn]
    split
    · rename_i taken
      exact held_reserve held taken
    · exact held
  | drop place =>
    simp only [turn]
    split
    · rename_i slot here
      obtain ⟨within,same⟩ := List.getElem?_eq_some_iff.mp here
      subst same
      exact held_drop held (List.getElem_cons_eraseIdx_perm within)
    · exact held

theorem held_turns (held : Held s) (as : List Turn) : Held (s.turns as) := by
  induction as generalizing s with
  | nil => exact held
  | cons a as ih => exact ih (held_turn held a)

theorem turns_size (s : Tenure) (as : List Turn) :
    (s.turns as).table.capacity = s.table.capacity ∧ (s.turns as).table.maxId = s.table.maxId := by
  induction as generalizing s with
  | nil => exact ⟨rfl,rfl⟩
  | cons a as ih =>
    have one : (s.turn a).table.capacity = s.table.capacity ∧ (s.turn a).table.maxId = s.table.maxId := by
      cases a with
      | reserve r =>
        simp only [turn]
        split
        · rename_i taken
          rw [(reserve?_some taken).2.2]
          exact ⟨rfl,rfl⟩
        · exact ⟨rfl,rfl⟩
      | drop place =>
        simp only [turn]
        split <;> exact ⟨rfl,rfl⟩
    exact ⟨(ih _).1.trans one.1,(ih _).2.trans one.2⟩

theorem live_nodup (t : TransactionTable) : t.live.Nodup :=
  Std.TreeMap.distinct_keys.imp fun differ same => differ (by rw [same]; exact Std.ReflCmp.compare_self)

theorem Held.live (held : Held s) : s.table.live.Perm (s.slots.map (·.id)) := by
  refine (List.perm_ext_iff_of_nodup (live_nodup s.table) held.distinct).mpr ?_
  intro id
  rw [mem_live]
  constructor
  · intro used
    obtain ⟨slot,member,same⟩ := held.owned id used
    exact List.mem_map.mpr ⟨slot,member,same⟩
  · intro member
    obtain ⟨slot,among,same⟩ := List.mem_map.mp member
    rw [contains_get?,← same,held.recorded slot among]
    rfl

theorem Held.count (held : Held s) : s.table.len = s.slots.length := by
  rw [← live_length,held.live.length_eq,List.length_map]

structure Exact (s : Tenure) : Prop where
  distinct : s.table.live.Nodup
  range : ∀ id ∈ s.table.live, 1 ≤ id ∧ id ≤ s.table.maxId
  held : s.table.live.Perm (s.slots.map (·.id))
  recorded : ∀ slot ∈ s.slots, s.table.get? slot.id = some slot.reserved
  within : s.table.len = s.slots.length ∧ s.slots.length ≤ s.table.capacity
  refused : ∀ r, s.table.reserve? r = none ↔ s.slots.length = s.table.capacity
  -- a refusal moves nothing, the cursor included
  still : ∀ r, s.table.reserve? r = none → s.turn (.reserve r) = s
  -- else the search for an id ends, and what it finds is reserved
  found : ∀ r, s.slots.length ≠ s.table.capacity → ∃ passed id, Search s.table s.table.next passed id ∧
    passed.length ≤ s.slots.length ∧ s.turn (.reserve r) =
      ⟨{s.table with records:=s.table.records.insert id r,next:=s.table.advance id},s.slots ++ [⟨id,r⟩]⟩

theorem Held.exact (held : Held s) : Exact s := by
  have count := held.count
  have within := held.sound.within
  refine ⟨live_nodup s.table,?_,held.live,held.recorded,⟨count,by omega⟩,?_,?_,?_⟩
  · intro id member
    obtain ⟨slot,among,rfl⟩ := List.mem_map.mp (held.live.mem_iff.mp member)
    exact held.range slot among
  · intro r
    rw [← count]
    exact reserve?_none held.sound
  · intro r refused
    simp only [turn,refused]
  · intro r partly
    obtain ⟨passed,id,search,short⟩ := search_ends held.sound
    refine ⟨passed,id,search,count ▸ short,?_⟩
    simp only [turn,reserve?_search search short (show s.table.len < s.table.capacity by omega)]

-- However slots of a table of any size are reserved and dropped. A table holds one slot at
-- least, and has an id more than slots.
theorem slots_exact (capacity : Nat) (maxId : UInt16) (as : List Turn) :
    Exact ((opened capacity maxId).turns as) ∧
      ((opened capacity maxId).turns as).table.capacity = max 1 (min capacity 65534) ∧
      ((opened capacity maxId).turns as).table.maxId.toNat = max maxId.toNat (max 1 (min capacity 65534)+1) := by
  obtain ⟨size,ids⟩ := turns_size (opened capacity maxId) as
  refine ⟨(held_turns (held_opened capacity maxId) as).exact,size,?_⟩
  rw [ids]
  exact empty_maxId capacity maxId

end Tenure
end TransactionTable
end ModbusMaster
