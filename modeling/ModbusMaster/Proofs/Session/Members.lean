import ModbusMaster.Proofs.Session.Holding
namespace ModbusMaster.SessionSet
variable {r u : SessionSet} {s t : Session} {key : Peer} {front back : List Session}

-- What the sessions of a stack hold together. Handing an entry over adds it, running a
-- session takes out what it completes, and nothing else changes.

def tickets (r : SessionSet) : List Ticket := r.members.flatMap Session.tickets

structure Sound (r : SessionSet) : Prop where
  distinct : (r.members.map (·.key)).Nodup
  -- a session that has ended holds nothing and takes nothing
  finished : ∀ s ∈ r.members, s.phase = .stopped → s.tickets = [] ∧ s.queue.accepting = false

theorem sound_start (timing : Timing) : Sound (start timing) := ⟨List.nodup_nil,fun s member => by cases member⟩

theorem find?_split (found : r.find? key = some s) :
    s.key = key ∧ ∃ front back, r.members = front ++ s::back ∧ ∀ x ∈ front, x.key ≠ key := by
  obtain ⟨same,front,back,split,before⟩ := List.find?_eq_some_iff_append.mp found
  exact ⟨by simpa using same,front,back,split,fun x member => by simpa using before x member⟩

theorem find?_mem (found : r.find? key = some s) : s ∈ r.members := List.mem_of_find?_eq_some found

theorem others_differ (distinct : (r.members.map (·.key)).Nodup) (split : r.members = front ++ s::back) :
    ∀ x ∈ front ++ back, x.key ≠ s.key := by
  rw [split,List.map_append,List.map_cons] at distinct
  have apart := List.perm_middle.nodup_iff.mp distinct
  rw [← List.map_append] at apart
  intro x member same
  exact (List.nodup_cons.mp apart).1 (same ▸ List.mem_map_of_mem member)

theorem update_members (distinct : (r.members.map (·.key)).Nodup) (split : r.members = front ++ s::back)
    (key : t.key = s.key) : (r.update t).members = front ++ t::back := by
  have differ := others_differ distinct split
  have kept (xs : List Session) (among : ∀ x ∈ xs, x.key ≠ s.key) :
      (xs.map fun x => if x.key == t.key then t else x) = xs := by
    rw [List.map_congr_left (g:=id),List.map_id]
    intro x member
    simp [key,among x member]
  simp only [update,split,List.map_append,List.map_cons]
  rw [kept front fun x member => differ x (by simp [member]),kept back fun x member => differ x (by simp [member])]
  simp [key]

theorem moveLast_members (distinct : (r.members.map (·.key)).Nodup) (split : r.members = front ++ s::back)
    (key : t.key = s.key) : (r.moveLast t).members = front ++ back ++ [t] := by
  have differ := others_differ distinct split
  have kept (xs : List Session) (among : ∀ x ∈ xs, x.key ≠ s.key) : (xs.filter fun x => x.key != t.key) = xs :=
    List.filter_eq_self.mpr fun x member => by simp [key,among x member]
  simp only [moveLast,split,List.filter_append,List.filter_cons]
  rw [kept front fun x member => differ x (by simp [member]),kept back fun x member => differ x (by simp [member])]
  simp [key]

theorem sound_replace (sound : Sound r) (split : r.members = front ++ s::back) (key : t.key = s.key)
    (finished : t.phase = .stopped → t.tickets = [] ∧ t.queue.accepting = false)
    (perm : u.members.Perm (t::(front ++ back))) : Sound u := by
  refine ⟨?_,?_⟩
  · have kept := sound.distinct
    rw [split] at kept
    have moved : (u.members.map (·.key)).Perm ((front ++ s::back).map (·.key)) := by
      have shown := (perm.trans List.perm_middle.symm).map (·.key)
      simpa [key] using shown
    exact moved.nodup_iff.mpr kept
  · intro x member stopped
    rcases List.mem_cons.mp (perm.mem_iff.mp member) with rfl | other
    · exact finished stopped
    · refine sound.finished x ?_ stopped
      rw [split]
      exact List.perm_middle.mem_iff.mpr (List.mem_cons_of_mem _ other)

theorem tickets_split (perm : r.members.Perm (s::(front ++ back))) :
    r.tickets.Perm (s.tickets ++ (front ++ back).flatMap Session.tickets) := perm.flatMap_right Session.tickets

theorem tickets_replace (split : r.members = front ++ s::back) (perm : u.members.Perm (t::(front ++ back)))
    {gone : List Ticket} (conserves : s.tickets = gone ++ t.tickets) : r.tickets.Perm (gone ++ u.tickets) := by
  have before := tickets_split (split ▸ List.perm_middle)
  rw [conserves,List.append_assoc] at before
  exact before.trans ((tickets_split perm).symm.append_left gone)

structure Serves (r u : SessionSet) (out : List SessionEvent) : Prop where
  sound : Sound u
  tickets : r.tickets.Perm (ended out ++ u.tickets)
  halted : u.halted = r.halted

theorem serves_quiet (sound : Sound r) : Serves r r [] := ⟨sound,List.Perm.refl _,rfl⟩

theorem runSession_serves (sound : Sound r) (device : Device) (format : Format) (now : Nat) (key : Peer) :
    Serves r (r.runSession device format now key).1 (r.runSession device format now key).2 := by
  unfold runSession
  split
  · exact serves_quiet sound
  · rename_i s found
    obtain ⟨_,front,back,split,_⟩ := find?_split found
    have member := find?_mem found
    split
    · -- the session ends with all it holds
      have conserves := Session.conserves_halt now s
      have perm : (r.update (s.halt now).1).members.Perm ((s.halt now).1::(front ++ back)) := by
        rw [update_members sound.distinct split conserves.key]
        exact List.perm_middle
      refine ⟨sound_replace sound split conserves.key ?_ perm,tickets_replace split perm conserves.tickets,rfl⟩
      intro _
      by_cases finished : s.phase = .stopped
      · rw [Session.halt_stopped finished]
        exact sound.finished s member finished
      · rw [Session.halt_live finished]
        exact ⟨rfl,rfl⟩
    · split
      · exact serves_quiet sound
      · rename_i step
        have conserves := Session.conserves_run device format r.timing now s
        have perm : (r.moveLast (s.run device format r.timing now).1).members.Perm
            ((s.run device format r.timing now).1::(front ++ back)) := by
          rw [moveLast_members sound.distinct split conserves.key]
          exact List.perm_append_singleton _ _
        have live : s.phase ≠ .stopped := fun finished => by simp [Session.step,finished] at step
        exact ⟨sound_replace sound split conserves.key (fun finished => absurd finished (Session.run_live live)) perm,
          tickets_replace split perm conserves.tickets,rfl⟩

structure Enqueues (r : SessionSet) (e : Entry) (u : SessionSet) : Prop where
  sound : Sound u
  tickets : u.tickets.Perm (e.ticket::r.tickets)
  serving : r.halted = false

theorem push?_tickets {q : PriorityQueue} {e : Entry} (pushed : s.queue.push? e = some q) :
    (Session.tickets {s with queue:=q}).Perm (e.ticket::s.tickets) := by
  have grown : (s.current?.toList ++ q.entries).Perm (e::(s.current?.toList ++ s.queue.entries)) :=
    ((PriorityQueue.push?_perm pushed).append_left _).trans List.perm_middle
  exact grown.map Entry.ticket

theorem enqueues_known {q : PriorityQueue} {e : Entry} (sound : Sound r) (serving : r.halted = false)
    (found : r.find? key = some s) (pushed : s.queue.push? e = some q) : Enqueues r e (r.update {s with queue:=q}) := by
  obtain ⟨_,front,back,split,_⟩ := find?_split found
  have perm : (r.update {s with queue:=q}).members.Perm ({s with queue:=q}::(front ++ back)) := by
    rw [update_members (t:={s with queue:=q}) sound.distinct split rfl]
    exact List.perm_middle
  have accepting : s.queue.accepting = true := by
    unfold PriorityQueue.push? at pushed
    split at pushed
    · assumption
    · cases pushed
  refine ⟨sound_replace (t:={s with queue:=q}) sound split rfl ?_ perm,?_,serving⟩
  · intro finished
    have closed := (sound.finished s (find?_mem found) finished).2
    rw [accepting] at closed
    cases closed
  · have after := (tickets_split perm).trans ((push?_tickets pushed).append_right _)
    exact after.trans ((tickets_split (split ▸ List.perm_middle)).symm.cons e.ticket)

theorem enqueues_new {q : PriorityQueue} {e : Entry} (sound : Sound r) (serving : r.halted = false)
    (unknown : ∀ x ∈ r.members, x.key ≠ s.key) (idle : s.phase = .idle) (empty : s.tickets = [])
    (pushed : s.queue.push? e = some q) : Enqueues r e {r with members:=r.members ++ [{s with queue:=q}]} := by
  refine ⟨⟨?_,?_⟩,?_,serving⟩
  · rw [List.map_append,List.map_cons,List.map_nil]
    apply (List.perm_append_singleton _ _).nodup_iff.mpr
    refine List.nodup_cons.mpr ⟨?_,sound.distinct⟩
    intro known
    obtain ⟨x,member,same⟩ := List.mem_map.mp known
    exact unknown x member same
  · intro x member finished
    rcases List.mem_append.mp member with old | new
    · exact sound.finished x old finished
    · rw [List.mem_singleton.mp new] at finished
      rw [show s.phase = .stopped from finished] at idle
      cases idle
  · have single := push?_tickets pushed
    rw [empty] at single
    simp only [tickets,List.flatMap_append,List.flatMap_cons,List.flatMap_nil,List.append_nil]
    exact (List.perm_append_comm.trans (single.append_right _))

theorem enqueue?_enqueues {usage : Usage} {e : Entry} (sound : Sound r) (taken : r.enqueue? usage e = some u) :
    Enqueues r e u := by
  unfold enqueue? at taken
  split at taken
  · cases taken
  · rename_i serving
    have serving := Bool.eq_false_iff.mpr serving
    split at taken
    · rename_i s found
      obtain ⟨q,pushed,rfl⟩ := Option.map_eq_some_iff.mp taken
      exact enqueues_known sound serving found pushed
    · rename_i absent
      obtain ⟨q,pushed,rfl⟩ := Option.map_eq_some_iff.mp taken
      have unknown : ∀ x ∈ r.members, x.key ≠ e.device.session := by
        simpa [find?] using absent
      exact enqueues_new sound serving unknown rfl rfl pushed

theorem runSession_ends (halted : r.halted = true) (device : Device) (format : Format) (now : Nat) (key : Peer) :
    ∀ x ∈ (r.runSession device format now key).1.members, x.phase ≠ .stopped → x ∈ r.members ∧ x.key ≠ key := by
  intro x member live
  unfold runSession at member
  split at member
  · rename_i absent
    refine ⟨member,?_⟩
    simpa using List.find?_eq_none.mp absent x member
  · rename_i s found
    rw [if_pos halted] at member
    have same := (find?_split found).1
    have key' := (Session.conserves_halt now s).key
    change x ∈ (r.update (s.halt now).1).members at member
    obtain ⟨y,old,shown⟩ := List.mem_map.mp member
    subst shown
    split at live
    · exact absurd (Session.halt_phase now s) live
    · rename_i other
      rw [if_neg other]
      refine ⟨old,?_⟩
      rw [key',same] at other
      simpa using other

end ModbusMaster.SessionSet
