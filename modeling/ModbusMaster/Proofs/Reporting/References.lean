import ModbusMaster.Proofs.Reporting.Awaiting
namespace ModbusMaster.OpenRequests

-- A table of open requests told by the calls that were made of it: which references are in
-- use, what each of them stands for, and for which points a periodic read is open.

inductive Call where
  | register (r : OpenRequest)
  | take (id : UInt16)
  deriving Repr

-- What calls came to. Taking is put down whether something was there or not.
inductive Deed where
  | registered (id : UInt16) (r : OpenRequest)
  | taken (id : UInt16)
  deriving Repr

def Deed.leaves (id : UInt16) (before : Option OpenRequest) : Deed → Option OpenRequest
  | registered other r => if other = id then some r else before
  | taken other => if other = id then none else before

def standing (id : UInt16) (deeds : List Deed) : Option OpenRequest := deeds.foldl (Deed.leaves id) none

def ids (t : OpenRequests) : List UInt16 := t.requests.keys

structure Course where
  table : OpenRequests
  deeds : List Deed

namespace Course
variable {s : Course} {u : OpenRequests} {r : OpenRequest} {id : UInt16} {key : String}

def opened : Course := ⟨empty,[]⟩

def call (s : Course) : Call → Course
  | .register r => match s.table.register? r with
    | some (id,t) => ⟨t,s.deeds ++ [.registered id r]⟩
    | none => s
  | .take id => match s.table.take? id with
    | some (_,t) => ⟨t,s.deeds ++ [.taken id]⟩
    | none => ⟨s.table,s.deeds ++ [.taken id]⟩

def calls : Course → List Call → Course
  | s,[] => s
  | s,c::rest => (s.call c).calls rest

def polled (s : Course) (key : String) : List UInt16 :=
  s.table.ids.filter fun id => (standing id s.deeds).any (·.polls key)

structure Held (s : Course) : Prop where
  flagged : s.table.Flagged
  told : ∀ id : UInt16, s.table.requests[id]? = standing id s.deeds
  range : ∀ id : UInt16, s.table.requests[id]? ≠ none → 1 ≤ id ∧ id ≤ maxId

theorem standing_append (id : UInt16) (deeds : List Deed) (d : Deed) :
    standing id (deeds ++ [d]) = d.leaves id (standing id deeds) := by
  rw [standing,List.foldl_append]
  rfl

theorem free?_range {fuel : Nat} {last : UInt16} (found : u.free? fuel last = some id) : 1 ≤ id ∧ id ≤ maxId := by
  induction fuel generalizing last with
  | zero => cases found
  | succ fuel ih =>
    simp only [free?] at found
    split at found
    · exact ih found
    · cases Option.some.inj found
      obtain ⟨n,there⟩ := Numbering.next_reaches maxId last
      have there : advance last = Numbering.nth maxId n := there
      exact there ▸ Numbering.nth_range (by decide) n

theorem register?_range (registered : s.table.register? r = some (id,u)) : 1 ≤ id ∧ id ≤ maxId := by
  unfold register? at registered
  dsimp only at registered
  split at registered
  · cases registered
  · split at registered
    · cases registered
    · rename_i found
      cases Option.some.inj registered
      unfold allocate? at found
      split at found
      · cases found
      · exact free?_range found

theorem held_opened : Held opened :=
  ⟨flagged_empty,fun id => by simp [opened,empty,standing],fun id here => absurd (by simp [opened,empty]) here⟩

theorem held_register (held : Held s) (registered : s.table.register? r = some (id,u)) :
    Held ⟨u,s.deeds ++ [.registered id r]⟩ := by
  refine ⟨held.flagged.register registered,?_,?_⟩
  · intro other
    rw [register?_get? registered,standing_append,held.told]
    rfl
  · intro other here
    rw [register?_get? registered] at here
    split at here
    · rename_i same
      exact same ▸ register?_range registered
    · exact held.range other here

theorem held_take (held : Held s) (taken : s.table.take? id = some (r,u)) : Held ⟨u,s.deeds ++ [.taken id]⟩ := by
  refine ⟨held.flagged.take taken,?_,?_⟩
  · intro other
    rw [take?_get? taken,standing_append,held.told]
    rfl
  · intro other here
    rw [take?_get? taken] at here
    split at here
    · exact absurd rfl here
    · exact held.range other here

theorem held_vacant (held : Held s) (vacant : s.table.take? id = none) : Held ⟨s.table,s.deeds ++ [.taken id]⟩ := by
  refine ⟨held.flagged,?_,held.range⟩
  intro other
  rw [standing_append,Deed.leaves]
  split
  · rename_i same
    exact same ▸ take?_none.mp vacant
  · exact held.told other

theorem held_call (held : Held s) (c : Call) : Held (s.call c) := by
  cases c with
  | register r =>
    simp only [call]
    split
    · rename_i registered
      exact held_register held registered
    · exact held
  | take id =>
    simp only [call]
    split
    · rename_i taken
      exact held_take held taken
    · rename_i vacant
      exact held_vacant held vacant

theorem held_calls (held : Held s) (cs : List Call) : Held (s.calls cs) := by
  induction cs generalizing s with
  | nil => exact held
  | cons c cs ih => exact ih (held_call held c)

theorem ids_nodup (t : OpenRequests) : t.ids.Nodup :=
  Std.TreeMap.distinct_keys.imp fun differ same => differ (by rw [same]; exact Std.ReflCmp.compare_self)

theorem mem_ids_get? : id ∈ s.table.ids ↔ s.table.requests[id]? ≠ none := by
  rw [ids,mem_ids,contains,Std.TreeMap.contains_eq_isSome_getElem?,Option.isSome_iff_ne_none]

theorem Held.mem_polled (held : Held s) : id ∈ s.polled key ↔ ∃ r, s.table.requests[id]? = some r ∧ r.polls key = true := by
  rw [polled,List.mem_filter,mem_ids_get?,held.told,Option.any_eq_true]
  constructor
  · rintro ⟨_,here⟩
    exact here
  · rintro ⟨r,here,polls⟩
    exact ⟨by simp [here],r,here,polls⟩

theorem Held.polled_single (held : Held s) (key : String) : (s.polled key).length ≤ 1 := by
  have distinct : (s.polled key).Nodup := (ids_nodup s.table).filter _
  have same : ∀ a ∈ s.polled key, ∀ b ∈ s.polled key, a = b := by
    intro a one b other
    obtain ⟨r,here,polls⟩ := held.mem_polled.mp one
    obtain ⟨q,there,polls'⟩ := held.mem_polled.mp other
    exact held.flagged.single key a b r q here there polls polls'
  generalize s.polled key = found at distinct same
  match found with
  | [] => exact Nat.zero_le 1
  | [_] => exact Nat.le_refl 1
  | a::b::rest => exact absurd (same a (by simp) b (by simp)) (by simp_all)

theorem Held.awaiting_iff (held : Held s) (key : String) : s.table.isAwaiting key = true ↔ (s.polled key).length = 1 := by
  have single := held.polled_single key
  rw [held.flagged.flag]
  constructor
  · rintro ⟨id,here⟩
    have some := List.length_pos_of_mem (held.mem_polled.mpr here)
    omega
  · intro one
    obtain ⟨id,only⟩ := List.length_eq_one_iff.mp one
    exact ⟨id,held.mem_polled.mp (by simp [only])⟩

theorem Held.count (held : Held s) : s.table.len ≤ maxId.toNat := by
  rw [← ids_length]
  have inside : s.table.ids ⊆ (List.range maxId.toNat).map fun n => UInt16.ofNat (n+1) := by
    intro id member
    obtain ⟨least,most⟩ := held.range id (mem_ids_get?.mp member)
    rw [UInt16.le_iff_toNat_le] at least most
    refine List.mem_map.mpr ⟨id.toNat-1,List.mem_range.mpr ?_,?_⟩
    · have : (1 : UInt16).toNat = 1 := rfl
      omega
    · have : (1 : UInt16).toNat = 1 := rfl
      rw [Nat.sub_add_cancel (by omega)]
      exact UInt16.ofNat_toNat
  have bound := ((ids_nodup s.table).subperm inside).length_le
  rwa [List.length_map,List.length_range] at bound

theorem register?_awaits (periodic : r.kind = .periodic) (awaited : s.table.isAwaiting r.point.key = true) :
    s.table.register? r = none := if_pos (by simp [periodic,awaited])

theorem register?_full (full : maxId.toNat ≤ s.table.len) : s.table.register? r = none := by
  simp [register?,allocate?,full]

theorem register?_search {passed : List UInt16} (search : Search s.table s.table.last passed id)
    (short : passed.length ≤ s.table.len) (room : s.table.len < maxId.toNat)
    (idle : r.kind = .periodic → s.table.isAwaiting r.point.key = false) : s.table.register? r =
      some (id,⟨s.table.requests.insert id r,
        if r.kind = .periodic then s.table.awaiting.insert r.point.key else s.table.awaiting,id⟩) := by
  have found := allocate?_search search short room
  cases kind : r.kind with
  | periodic => simp [register?,kind,idle kind,found]
  | onDemandRead => simp [register?,kind,found]
  | onDemandWrite => simp [register?,kind,found]

theorem Held.registers (held : Held s) (r : OpenRequest) :
    ((r.kind = .periodic ∧ s.table.isAwaiting r.point.key = true ∨ s.table.ids.length = 65534) ∧
      s.table.register? r = none) ∨
    (¬(r.kind = .periodic ∧ s.table.isAwaiting r.point.key = true ∨ s.table.ids.length = 65534) ∧
      ∃ passed id, Search s.table s.table.last passed id ∧ passed.length ≤ s.table.ids.length ∧ s.table.register? r =
        some (id,⟨s.table.requests.insert id r,
          if r.kind = .periodic then s.table.awaiting.insert r.point.key else s.table.awaiting,id⟩)) := by
  have count := held.count
  have size : s.table.ids.length = s.table.len := ids_length s.table
  have limit : maxId.toNat = 65534 := rfl
  by_cases awaits : r.kind = .periodic ∧ s.table.isAwaiting r.point.key = true
  · exact .inl ⟨.inl awaits,register?_awaits awaits.1 awaits.2⟩
  · by_cases full : s.table.ids.length = 65534
    · exact .inl ⟨.inr full,register?_full (by omega)⟩
    · have room : s.table.len < maxId.toNat := by omega
      obtain ⟨passed,id,search,short⟩ := search_ends room
      refine .inr ⟨not_or.mpr ⟨awaits,full⟩,passed,id,search,size ▸ short,register?_search search short room fun periodic => ?_⟩
      exact Bool.eq_false_iff.mpr fun awaited => awaits ⟨periodic,awaited⟩

structure Exact (s : Course) : Prop where
  distinct : s.table.ids.Nodup
  range : ∀ id ∈ s.table.ids, 1 ≤ id ∧ id ≤ maxId
  used : ∀ id, id ∈ s.table.ids ↔ standing id s.deeds ≠ none
  -- taken out is what was registered under the reference since it was last taken
  taken : ∀ id, (s.table.take? id).map (·.1) = standing id s.deeds
  -- a point is awaited as long as one periodic read of it stands, and there is no second one
  awaited : ∀ key, s.table.isAwaiting key = true ↔ (s.polled key).length = 1
  single : ∀ key, (s.polled key).length ≤ 1
  refused : ∀ r, s.table.register? r = none ↔
    (r.kind = .periodic ∧ s.table.isAwaiting r.point.key = true) ∨ s.table.ids.length = 65534
  -- a refusal moves nothing, the last reference included
  still : ∀ r, s.table.register? r = none → s.call (.register r) = s
  -- else the search for a reference ends, and it is one that nothing stands under
  found : ∀ r, s.table.register? r ≠ none → ∃ passed id, Search s.table s.table.last passed id ∧
    passed.length ≤ s.table.ids.length ∧ standing id s.deeds = none ∧ s.call (.register r) =
      ⟨⟨s.table.requests.insert id r,
        if r.kind = .periodic then s.table.awaiting.insert r.point.key else s.table.awaiting,id⟩,
        s.deeds ++ [.registered id r]⟩

theorem Held.exact (held : Held s) : Exact s := by
  refine ⟨ids_nodup s.table,?_,?_,?_,held.awaiting_iff,held.polled_single,?_,?_,?_⟩
  · intro id member
    exact held.range id (mem_ids_get?.mp member)
  · intro id
    rw [mem_ids_get?,held.told]
  · intro id
    rw [← held.told,take?]
    cases s.table.requests[id]? <;> rfl
  · intro r
    rcases held.registers r with ⟨reason,refused⟩ | ⟨fits,passed,id,_,_,registered⟩
    · exact iff_of_true refused reason
    · exact iff_of_false (by simp [registered]) fits
  · intro r refused
    simp only [call,refused]
  · intro r accepted
    rcases held.registers r with ⟨_,refused⟩ | ⟨_,passed,id,search,short,registered⟩
    · exact absurd refused accepted
    · refine ⟨passed,id,search,short,?_,?_⟩
      · rw [← held.told]
        exact register?_fresh registered
      · simp only [call,registered]

theorem requests_kept_apart (cs : List Call) : Exact (opened.calls cs) := (held_calls held_opened cs).exact

end Course
end ModbusMaster.OpenRequests
