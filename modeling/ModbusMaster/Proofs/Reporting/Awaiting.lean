import ModbusMaster.Proofs.Numbering
import ModbusMaster.Proofs.Reporting.Attribution
namespace ModbusMaster

-- The flags of the points that are awaited, the periodic reads that are open, and where
-- such a read is: in the stack, or in a response that has not been processed.

namespace OpenRequests
-- The search for an id with no limit to it: the ids behind the last one that it passes since
-- they are in use, and the one where it stops.
inductive Search (t : OpenRequests) : UInt16 → List UInt16 → UInt16 → Prop where
  | stops {last} (free : t.contains (advance last) = false) : Search t last [] (advance last)
  | passes {last passed id} (used : t.contains (advance last) = true) (onward : Search t (advance last) passed id) :
      Search t last (advance last::passed) id

variable {t u : OpenRequests} {r : OpenRequest} {id last : UInt16} {n k fuel : Nat}

structure Flagged (t : OpenRequests) : Prop where
  flag : ∀ key, t.isAwaiting key = true ↔ ∃ (id : UInt16) (r : OpenRequest), t.requests[id]? = some r ∧ r.polls key = true
  single : ∀ key (id other : UInt16) (r q : OpenRequest), t.requests[id]? = some r → t.requests[other]? = some q →
    r.polls key = true → q.polls key = true → id = other

theorem flagged_empty : Flagged empty :=
  ⟨fun key => by simp [empty,isAwaiting],fun key id other r q here => by simp [empty] at here⟩

theorem Flagged.register (flagged : Flagged t) (registered : t.register? r = some (id,u)) : Flagged u := by
  have flags := register?_isAwaiting registered
  have opened := register?_get? registered
  have fresh := register?_fresh registered
  -- the new read is of no point that has one already
  have apart : ∀ key (other : UInt16) (q : OpenRequest), t.requests[other]? = some q → q.polls key = true → r.polls key = false := by
    intro key other q here polls
    have awaited := (flagged.flag key).mpr ⟨other,q,here,polls⟩
    refine Bool.eq_false_iff.mpr ?_
    intro again
    rw [(flags key).2 again] at awaited
    cases awaited
  refine ⟨?_,?_⟩
  · intro key
    rw [(flags key).1,Bool.or_eq_true,flagged.flag]
    constructor
    · rintro (⟨other,q,here,polls⟩ | polls)
      · refine ⟨other,q,?_,polls⟩
        rw [opened,if_neg]
        · exact here
        · rintro rfl
          rw [fresh] at here
          cases here
      · exact ⟨id,r,by rw [opened,if_pos rfl],polls⟩
    · rintro ⟨other,q,here,polls⟩
      rw [opened] at here
      split at here
      · cases here
        exact .inr polls
      · exact .inl ⟨other,q,here,polls⟩
  · intro key one other q₁ q₂ here there polls₁ polls₂
    rw [opened] at here there
    split at here <;> split at there
    · rename_i same same'
      rw [← same,← same']
    · cases here
      rw [apart key other q₂ there polls₂] at polls₁
      cases polls₁
    · cases there
      rw [apart key one q₁ here polls₁] at polls₂
      cases polls₂
    · exact flagged.single key one other q₁ q₂ here there polls₁ polls₂

theorem Flagged.take (flagged : Flagged t) (taken : t.take? id = some (r,u)) : Flagged u := by
  have here := take?_some taken
  have left := take?_get? taken
  have kept : ∀ (other : UInt16) (q : OpenRequest), u.requests[other]? = some q → id ≠ other ∧ t.requests[other]? = some q := by
    intro other q still
    rw [left] at still
    split at still
    · cases still
    · exact ⟨‹_›,still⟩
  refine ⟨?_,?_⟩
  · intro key
    rw [take?_isAwaiting taken,Bool.and_eq_true,flagged.flag,Bool.not_eq_true']
    constructor
    · rintro ⟨⟨other,q,there,polls⟩,unlike⟩
      refine ⟨other,q,?_,polls⟩
      rw [left,if_neg]
      · exact there
      · rintro rfl
        cases here.symm.trans there
        rw [polls] at unlike
        cases unlike
    · rintro ⟨other,q,still,polls⟩
      obtain ⟨differ,there⟩ := kept other q still
      refine ⟨⟨other,q,there,polls⟩,?_⟩
      refine Bool.eq_false_iff.mpr ?_
      intro also
      exact differ (flagged.single key id other r q here there also polls)
  · intro key one other q₁ q₂ here₁ here₂
    exact flagged.single key one other q₁ q₂ (kept one q₁ here₁).2 (kept other q₂ here₂).2

theorem search_free? {passed : List UInt16} (search : Search t last passed id) (enough : passed.length < fuel) :
    t.free? fuel last = some id := by
  induction search generalizing fuel with
  | stops free =>
    cases fuel with
    | zero => cases enough
    | succ fuel => exact if_neg (Bool.eq_false_iff.mp free)
  | passes used _ ih =>
    cases fuel with
    | zero => cases enough
    | succ fuel => exact (if_pos used).trans (ih (Nat.lt_of_succ_lt_succ enough))

theorem search_nth (next : advance last = Numbering.nth maxId n)
    (used : ∀ j, j < k → t.contains (Numbering.nth maxId (n+j)) = true)
    (free : t.contains (Numbering.nth maxId (n+k)) = false) :
    ∃ passed, passed.length = k ∧ Search t last passed (Numbering.nth maxId (n+k)) := by
  induction k generalizing n last with
  | zero => exact ⟨[],rfl,next ▸ .stops (next ▸ free)⟩
  | succ k ih =>
    have shift (j : Nat) : n+1+j = n+(j+1) := by omega
    have onward : advance (Numbering.nth maxId n) = Numbering.nth maxId (n+1) := Numbering.next_nth (by decide) n
    obtain ⟨passed,count,search⟩ := ih (next ▸ onward) (fun j below => shift j ▸ used (j+1) (by omega)) (shift k ▸ free)
    rw [shift] at search
    exact ⟨_,congrArg (·+1) count,.passes (next ▸ used 0 (by omega)) search⟩

theorem ids_length (t : OpenRequests) : t.requests.keys.length = t.len := Std.TreeMap.length_keys

theorem mem_ids : id ∈ t.requests.keys ↔ t.contains id = true := Std.TreeMap.mem_keys

-- The ids go round, and with fewer requests open than there are ids one is found, after those
-- in use have been passed if not before.
theorem search_ends (room : t.len < maxId.toNat) : ∃ passed id, Search t t.last passed id ∧ passed.length ≤ t.len := by
  obtain ⟨n,next⟩ := Numbering.next_reaches maxId t.last
  obtain ⟨k,near,absent,passed⟩ := Numbering.unused_ahead (ids_length t ▸ room) n
  have free : t.contains (Numbering.nth maxId (n+k)) = false := Bool.eq_false_iff.mpr fun used => absent (mem_ids.mpr used)
  obtain ⟨ids,count,search⟩ := search_nth next (fun j below => mem_ids.mp (passed j below)) free
  exact ⟨ids,_,search,by rw [count,← ids_length]; exact near⟩

theorem allocate?_search {passed : List UInt16} (search : Search t t.last passed id) (short : passed.length ≤ t.len)
    (room : t.len < maxId.toNat) : t.allocate? = some id :=
  (if_neg (Nat.not_le.mpr room)).trans (search_free? search (Nat.lt_succ_of_le short))

theorem allocate?_room (room : t.len < maxId.toNat) : ∃ id, t.allocate? = some id := by
  obtain ⟨passed,id,search,short⟩ := search_ends room
  exact ⟨id,allocate?_search search short room⟩

theorem register?_room (room : t.len < maxId.toNat) (idle : t.isAwaiting r.point.key = false) :
    ∃ id u, t.register? r = some (id,u) := by
  obtain ⟨id,allocated⟩ := allocate?_room room
  simp [register?,allocated,idle]

theorem register?_awaited {p : Point} (awaited : t.isAwaiting p.key = true) :
    t.register? (OpenRequest.periodic p) = none := if_pos (by simp [OpenRequest.periodic,awaited])

structure Kept (holds : OpenRequests → Prop) : Prop where
  register : ∀ {t r id u}, holds t → t.register? r = some (id,u) → holds u
  take : ∀ {t id r u}, holds t → t.take? id = some (r,u) → holds u

theorem flagged_kept : Kept Flagged := ⟨Flagged.register,Flagged.take⟩

end OpenRequests

-- The requests for points that are queued or on the wire, or have been completed and wait
-- to be processed.
def underway (inside : List Ticket) (p : Reporter) : List Ticket :=
  inside.filter (·.handler == .points) ++ p.queue.items.map (·.ticket .points)

-- What a ticket was issued for. References come again, so that is the last with its own.
def issuedFor (h : List Happening) (t : Ticket) : Option OpenRequest := (issuedAs t.app h).getLast?.map (·.1)

def outstanding (inside : List Ticket) (p : Reporter) (h : List Happening) (key : String) : List Ticket :=
  (underway inside p).filter fun t => (issuedFor h t).any (·.polls key)

variable {inside : List Ticket} {p : Reporter} {h : List Happening} {app : UInt16} {r : OpenRequest} {t : Ticket} {key : String}

theorem underway_as (inside : List Ticket) (p : Reporter) (app : UInt16) : (underway inside p).filter (·.app == app) =
    inside.filter (ofPoint app) ++ (p.queue.items.filter (·.app == app)).map (·.ticket .points) := by
  rw [underway,List.filter_append,List.filter_filter,List.filter_map]
  congr 1
  apply List.filter_congr
  intro x _
  exact Bool.and_comm _ _

theorem Attributed.underway_count (attributed : Attributed inside p h) (app : UInt16) :
    ((underway inside p).filter (·.app == app)).length = (p.pending.requests[app]?).toList.length := by
  rw [underway_as,attributed.count app,List.length_append,List.length_map]
  exact Nat.add_comm _ _

theorem Attributed.traced (attributed : Attributed inside p h) (member : t ∈ underway inside p) :
    ∃ r, p.pending.requests[t.app]? = some r ∧ (issuedAs t.app h).getLast? = some (r,t) := by
  have here : t ∈ (underway inside p).filter (·.app == t.app) := List.mem_filter.mpr ⟨member,by simp⟩
  have count := attributed.underway_count t.app
  have present := List.length_pos_of_mem here
  cases opened : p.pending.requests[t.app]? with
  | none =>
    rw [opened,Option.toList_none,List.length_nil] at count
    omega
  | some r =>
    rw [opened] at count
    obtain ⟨x,one⟩ := List.length_eq_one_iff.mp count
    rw [one,List.mem_singleton] at here
    subst here
    refine ⟨r,rfl,?_⟩
    have requests := congrArg List.getLast? (attributed.unanswered t.app)
    rw [opened,Option.toList_some,List.getLast?_append,List.getLast?_singleton,List.getLast?_map] at requests
    have tickets : ((issuedAs t.app h).getLast?).map (·.2) = some t := by
      rw [underway_as] at one
      have account := (attributed.refs t.app).account
      rw [attributed.issued,toldTickets_ofPoint,attributed.waiting,List.map_append,List.append_assoc] at account
      rw [← List.getLast?_map,account,List.getLast?_append]
      rcases List.append_eq_singleton_iff.mp one with ⟨gone,waits⟩ | ⟨held,nothing⟩
      · rw [gone,waits]
        rfl
      · rw [held,nothing]
        rfl
    cases last : (issuedAs t.app h).getLast? with
    | none => simp [last] at tickets
    | some found =>
      obtain ⟨a,b⟩ := found
      simp only [last,Option.map_some,Option.some_or,Option.some.injEq] at requests tickets
      rw [requests,tickets]

theorem Attributed.issuedFor (attributed : Attributed inside p h) (member : t ∈ underway inside p) :
    issuedFor h t = p.pending.requests[t.app]? := by
  obtain ⟨r,opened,last⟩ := attributed.traced member
  rw [ModbusMaster.issuedFor,last,opened]
  rfl

theorem Attributed.mem_outstanding (attributed : Attributed inside p h) : t ∈ outstanding inside p h key ↔
    t ∈ underway inside p ∧ ∃ r, p.pending.requests[t.app]? = some r ∧ r.polls key = true := by
  rw [outstanding,List.mem_filter]
  constructor
  · rintro ⟨member,polls⟩
    rw [attributed.issuedFor member,Option.any_eq_true] at polls
    exact ⟨member,polls⟩
  · rintro ⟨member,polls⟩
    rw [attributed.issuedFor member,Option.any_eq_true]
    exact ⟨member,polls⟩

theorem Attributed.outstanding_single (attributed : Attributed inside p h) (flagged : p.pending.Flagged) (key : String) :
    (outstanding inside p h key).length ≤ 1 := by
  cases first : outstanding inside p h key with
  | nil => exact Nat.zero_le 1
  | cons t rest =>
    -- all of them have the reference of the first, and that is used once
    obtain ⟨_,r,opened,polls⟩ := attributed.mem_outstanding.mp (show t ∈ outstanding inside p h key by simp [first])
    have among : (outstanding inside p h key).Sublist ((underway inside p).filter (·.app == t.app)) := by
      have same : (outstanding inside p h key).filter (·.app == t.app) = outstanding inside p h key := by
        apply List.filter_eq_self.mpr
        intro x member
        obtain ⟨_,q,opened',polls'⟩ := attributed.mem_outstanding.mp member
        exact beq_iff_eq.mpr (flagged.single key x.app t.app q r opened' opened polls' polls)
      rw [← same]
      exact List.filter_sublist.filter _
    have bound := among.length_le
    rw [attributed.underway_count,opened,first] at bound
    exact bound

theorem Attributed.awaiting_iff (attributed : Attributed inside p h) (flagged : p.pending.Flagged) (key : String) :
    p.pending.isAwaiting key = true ↔ outstanding inside p h key ≠ [] := by
  rw [flagged.flag]
  constructor
  · rintro ⟨id,r,opened,polls⟩
    have count := attributed.underway_count id
    rw [opened] at count
    obtain ⟨t,one⟩ := List.length_eq_one_iff.mp count
    have member : t ∈ (underway inside p).filter (·.app == id) := by simp [one]
    obtain ⟨member,same⟩ := List.mem_filter.mp member
    rw [beq_iff_eq] at same
    exact List.ne_nil_of_mem (attributed.mem_outstanding.mpr ⟨member,r,same ▸ opened,polls⟩)
  · intro some
    obtain ⟨t,member⟩ := List.exists_mem_of_ne_nil _ some
    obtain ⟨_,r,opened,polls⟩ := attributed.mem_outstanding.mp member
    exact ⟨t.app,r,opened,polls⟩

end ModbusMaster
