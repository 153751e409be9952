import ModbusMaster.Proofs.Session.Members
namespace ModbusMaster

-- The turn of one session of a set, and an entry that is handed to it: what becomes of
-- that session, and that the others stay as they are.

def Session.serve (device : Device) (format : Format) (timing : Timing) (halted : Bool) (now : Nat) (s : Session) :
    Session × List SessionEvent :=
  if halted then s.halt now else s.run device format timing now

theorem Session.serve_key (device : Device) (format : Format) (timing : Timing) (halted : Bool) (now : Nat) (s : Session) :
    (s.serve device format timing halted now).1.key = s.key := by
  unfold serve
  split
  · exact (conserves_halt now s).key
  · exact (conserves_run device format timing now s).key

namespace SessionSet
variable {r u : SessionSet} {s x old : Session} {key other : Peer} {device : Device} {format : Format} {now : Nat}
  {usage : Usage} {e : Entry} {q : PriorityQueue}

theorem update_self (found : r.find? s.key = some old) : (r.update s).find? s.key = some s := by
  unfold find? update at *
  generalize r.members = members at *
  induction members with
  | nil => cases found
  | cons x rest ih =>
    by_cases same : x.key = s.key
    · simp [same]
    · have tail : rest.find? (fun t => t.key == s.key) = some old := by simpa [same] using found
      simpa [same] using ih tail

theorem update_other (different : other ≠ s.key) : (r.update s).find? other = r.find? other := by
  unfold find? update
  generalize r.members = members
  induction members with
  | nil => rfl
  | cons x rest ih =>
    by_cases same : x.key = s.key
    · simpa [same,different.symm] using ih
    · by_cases here : x.key = other
      · simp [here,different]
      · simpa [same,here] using ih

theorem moveLast_self (r : SessionSet) (s : Session) : (r.moveLast s).find? s.key = some s := by
  unfold find? moveLast
  generalize r.members = members
  induction members with
  | nil => simp
  | cons x rest ih => by_cases same : x.key = s.key <;> simpa [same] using ih

theorem moveLast_other (different : other ≠ s.key) : (r.moveLast s).find? other = r.find? other := by
  unfold find? moveLast
  generalize r.members = members
  induction members with
  | nil => simp [different.symm]
  | cons x rest ih =>
    by_cases same : x.key = s.key
    · simpa [same,different.symm] using ih
    · by_cases here : x.key = other
      · simp [here,different]
      · simpa [same,here] using ih

theorem mem_update (member : x ∈ (r.update s).members) : x = s ∨ x ∈ r.members := by
  obtain ⟨y,among,rfl⟩ := List.mem_map.mp member
  split
  · exact .inl rfl
  · exact .inr among

theorem mem_moveLast (member : x ∈ (r.moveLast s).members) : x = s ∨ x ∈ r.members := by
  rcases List.mem_append.mp member with kept | last
  · exact .inr ((List.mem_filter.mp kept).1)
  · exact .inl (List.mem_singleton.mp last)

theorem runSession_found (device : Device) (format : Format) (now : Nat) (found : r.find? key = some s) :
    ((r.runSession device format now key).1 = r ∨
      (r.runSession device format now key).1 = r.update (s.serve device format r.timing r.halted now).1 ∨
      (r.runSession device format now key).1 = r.moveLast (s.serve device format r.timing r.halted now).1) ∧
    (r.runSession device format now key).1.find? key = some (s.serve device format r.timing r.halted now).1 ∧
    (r.runSession device format now key).2 = (s.serve device format r.timing r.halted now).2 := by
  have named := (find?_split found).1
  have kept := (Session.serve_key device format r.timing r.halted now s).trans named
  unfold runSession
  rw [found]
  dsimp only
  by_cases halted : r.halted = true
  · rw [if_pos halted]
    have served : s.serve device format r.timing r.halted now = s.halt now := if_pos halted
    rw [served] at kept ⊢
    refine ⟨.inr (.inl rfl),?_,rfl⟩
    rw [← kept] at found ⊢
    exact update_self found
  · rw [if_neg halted]
    have served : s.serve device format r.timing r.halted now = s.run device format r.timing now := if_neg halted
    rw [served] at kept ⊢
    split
    · rename_i quiet
      rw [Session.run_quiet quiet]
      exact ⟨.inl rfl,found,rfl⟩
    · refine ⟨.inr (.inr rfl),?_,rfl⟩
      rw [← kept]
      exact moveLast_self r _

theorem runSession_absent (device : Device) (format : Format) (now : Nat) (absent : r.find? key = none) :
    r.runSession device format now key = (r,[]) := by
  unfold runSession
  rw [absent]

theorem runSession_other (r : SessionSet) (device : Device) (format : Format) (now : Nat) (different : other ≠ key) :
    (r.runSession device format now key).1.find? other = r.find? other := by
  cases found : r.find? key with
  | none => rw [runSession_absent device format now found]
  | some s =>
    have kept := (Session.serve_key device format r.timing r.halted now s).trans (find?_split found).1
    rw [← kept] at different
    rcases (runSession_found device format now found).1 with same | same | same
    · rw [same]
    · rw [same,update_other different]
    · rw [same,moveLast_other different]

theorem runSession_rest (r : SessionSet) (device : Device) (format : Format) (now : Nat) (key : Peer) :
    (r.runSession device format now key).1.halted = r.halted ∧
      (r.runSession device format now key).1.timing = r.timing := by
  cases found : r.find? key with
  | none =>
    rw [runSession_absent device format now found]
    exact ⟨rfl,rfl⟩
  | some s =>
    rcases (runSession_found device format now found).1 with same | same | same <;> (rw [same]; exact ⟨rfl,rfl⟩)

theorem mem_runSession (member : x ∈ (r.runSession device format now key).1.members) : x ∈ r.members ∨
    ∃ s ∈ r.members, s.key = key ∧ x = (s.serve device format r.timing r.halted now).1 := by
  cases found : r.find? key with
  | none =>
    rw [runSession_absent device format now found] at member
    exact .inl member
  | some s =>
    have new (same : x = (s.serve device format r.timing r.halted now).1) : ∃ s ∈ r.members, s.key = key ∧
        x = (s.serve device format r.timing r.halted now).1 := ⟨s,find?_mem found,(find?_split found).1,same⟩
    rcases (runSession_found device format now found).1 with same | same | same
    · exact .inl (same ▸ member)
    · rw [same] at member
      exact (mem_update member).symm.imp id new
    · rw [same] at member
      exact (mem_moveLast member).symm.imp id new

theorem runSession_tells (r : SessionSet) (device : Device) (format : Format) (now : Nat) (key : Peer) :
    (r.runSession device format now key).2 = [] ∨ ∃ s ∈ r.members, s.key = key ∧
      (r.runSession device format now key).2 = (s.serve device format r.timing r.halted now).2 := by
  cases found : r.find? key with
  | none =>
    rw [runSession_absent device format now found]
    exact .inl rfl
  | some s => exact .inr ⟨s,find?_mem found,(find?_split found).1,(runSession_found device format now found).2.2⟩

def goal (r : SessionSet) (usage : Usage) (key : Peer) : Session := (r.find? key).getD (Session.create key usage)

theorem goal_key (r : SessionSet) (usage : Usage) (key : Peer) : (r.goal usage key).key = key := by
  unfold goal
  cases found : r.find? key with
  | none => rfl
  | some s => exact (find?_split found).1

structure Entered (r : SessionSet) (usage : Usage) (e : Entry) (q : PriorityQueue) (u : SessionSet) : Prop where
  halted : u.halted = r.halted
  timing : u.timing = r.timing
  members : ∀ x ∈ u.members, x ∈ r.members ∨ x = {r.goal usage e.device.session with queue:=q}
  found : u.find? e.device.session = some {r.goal usage e.device.session with queue:=q}
  others : ∀ other, other ≠ e.device.session → u.find? other = r.find? other

theorem enqueue?_taken (serving : r.halted = false) (pushed : (r.goal usage e.device.session).queue.push? e = some q) :
    ∃ u, r.enqueue? usage e = some u ∧ r.Entered usage e q u := by
  unfold enqueue?
  rw [if_neg (by simp [serving])]
  cases found : r.find? e.device.session with
  | some s =>
    have goal : r.goal usage e.device.session = s := by rw [SessionSet.goal,found,Option.getD_some]
    rw [goal] at pushed
    refine ⟨r.update {s with queue:=q},by simp [pushed],rfl,rfl,?_,?_,?_⟩
    · intro x member
      rw [goal]
      exact (mem_update member).symm
    · have named := (find?_split found).1
      rw [goal]
      rw [← named] at found ⊢
      exact update_self (s:={s with queue:=q}) found
    · intro other different
      rw [← (find?_split found).1] at different
      exact update_other (s:={s with queue:=q}) different
  | none =>
    have goal : r.goal usage e.device.session = Session.create e.device.session usage := by
      rw [SessionSet.goal,found,Option.getD_none]
    rw [goal] at pushed
    refine ⟨{r with members:=r.members ++ [{Session.create e.device.session usage with queue:=q}]},by simp [pushed],rfl,rfl,
      ?_,?_,?_⟩
    · intro x member
      rw [goal]
      exact (List.mem_append.mp member).imp id List.mem_singleton.mp
    · have absent : r.members.find? (fun t => t.key == e.device.session) = none := found
      rw [goal]
      simp only [find?,List.find?_append,absent,Option.none_or]
      simp [Session.create]
    · intro other different
      simp only [find?,List.find?_append]
      simp [Session.create,different.symm]

theorem enqueue?_refused (refused : r.halted = true ∨ (r.goal usage e.device.session).queue.push? e = none) :
    r.enqueue? usage e = none := by
  unfold enqueue?
  by_cases halted : r.halted = true
  · rw [if_pos halted]
  · rw [if_neg halted]
    have refused := refused.resolve_left halted
    unfold goal at refused
    cases found : r.find? e.device.session with
    | some s =>
      rw [found,Option.getD_some] at refused
      simp [refused]
    | none =>
      rw [found,Option.getD_none] at refused
      simp [refused]

theorem enqueue?_entered (taken : r.enqueue? usage e = some u) : r.halted = false ∧
    ∃ q, (r.goal usage e.device.session).queue.push? e = some q ∧ r.Entered usage e q u := by
  by_cases halted : r.halted = true
  · rw [enqueue?_refused (.inl halted)] at taken
    cases taken
  · have serving := Bool.eq_false_iff.mpr halted
    cases pushed : (r.goal usage e.device.session).queue.push? e with
    | none =>
      rw [enqueue?_refused (.inr pushed)] at taken
      cases taken
    | some q =>
      obtain ⟨u',same,entered⟩ := enqueue?_taken serving pushed
      cases taken.symm.trans same
      exact ⟨serving,q,rfl,entered⟩

theorem mem_enqueue? (taken : r.enqueue? usage e = some u) (member : x ∈ u.members) : x ∈ r.members ∨
    ∃ s q, (s ∈ r.members ∨ s = Session.create e.device.session usage) ∧ s.key = e.device.session ∧
      s.queue.push? e = some q ∧ x = {s with queue:=q} := by
  obtain ⟨_,q,pushed,entered⟩ := enqueue?_entered taken
  refine (entered.members x member).imp id fun same => ⟨r.goal usage e.device.session,q,?_,goal_key r usage _,pushed,same⟩
  unfold goal
  cases found : r.find? e.device.session with
  | some s => exact .inl (find?_mem found)
  | none => exact .inr rfl

end SessionSet
end ModbusMaster
