import ModbusMaster.Proofs.Session.Serving
namespace ModbusMaster

-- The order in which a session serves what is queued: the most urgent first, the older one
-- first among equals. What is in front is taken up first, whatever comes in meanwhile.

namespace PriorityQueue
variable {a b e : Entry} {es : List Entry} {q r : PriorityQueue}

def Ordered (q : PriorityQueue) : Prop := q.entries.Pairwise fun a b => a.priority ≤ b.priority

def Ahead (q : PriorityQueue) (a b : Entry) : Prop := [a,b].Sublist q.entries

-- A newcomer goes behind all that are as urgent or more, and in front of the rest.
theorem place_between (ordered : es.Pairwise fun a b => a.priority ≤ b.priority) (e : Entry) : ∃ front back,
    es = front ++ back ∧ place e es = front ++ e::back ∧ (∀ a ∈ front, a.priority ≤ e.priority) ∧
      ∀ b ∈ back, e.priority < b.priority := by
  induction es with
  | nil => exact ⟨[],[],rfl,rfl,by simp,by simp⟩
  | cons x rest ih =>
    rw [List.pairwise_cons] at ordered
    by_cases first : e.priority < x.priority
    · refine ⟨[],x::rest,rfl,by simp [place,first],by simp,?_⟩
      rw [List.forall_mem_cons]
      exact ⟨first,fun b later => Int.lt_of_lt_of_le first (ordered.1 b later)⟩
    · obtain ⟨front,back,rfl,placed,before,behind⟩ := ih ordered.2
      refine ⟨x::front,back,rfl,by simp [place,first,placed],?_,behind⟩
      rw [List.forall_mem_cons]
      exact ⟨Int.not_lt.mp first,before⟩

theorem place_ordered (ordered : es.Pairwise fun a b => a.priority ≤ b.priority) (e : Entry) :
    (place e es).Pairwise fun a b => a.priority ≤ b.priority := by
  obtain ⟨front,back,rfl,placed,before,behind⟩ := place_between ordered e
  rw [List.pairwise_append] at ordered
  obtain ⟨early,late,across⟩ := ordered
  rw [placed,List.pairwise_append,List.pairwise_cons]
  refine ⟨early,⟨fun b later => Int.le_of_lt (behind b later),late⟩,?_⟩
  intro a among
  rw [List.forall_mem_cons]
  exact ⟨before a among,across a among⟩

theorem place_keeps (e : Entry) (es : List Entry) : es.Sublist (place e es) := by
  induction es with
  | nil => exact List.nil_sublist _
  | cons x rest ih =>
    simp only [place]
    split
    · exact List.sublist_cons_self _ _
    · exact ih.cons_cons x

theorem push?_entries (pushed : q.push? e = some r) : r.entries = place e q.entries := by
  unfold push? at pushed
  split at pushed
  · cases pushed
    rfl
  · cases pushed

theorem Ordered.push (ordered : q.Ordered) (pushed : q.push? e = some r) : r.Ordered := by
  rw [Ordered,push?_entries pushed]
  exact place_ordered ordered e

theorem Ahead.push (ahead : q.Ahead a b) (pushed : q.push? e = some r) : r.Ahead a b := by
  rw [Ahead,push?_entries pushed]
  exact ahead.trans (place_keeps e q.entries)

theorem Ordered.ahead (ordered : q.Ordered) (one : a ∈ q.entries) (other : b ∈ q.entries)
    (urgent : a.priority < b.priority) : q.Ahead a b := by
  unfold Ordered Ahead at *
  generalize q.entries = es at *
  induction es with
  | nil => cases one
  | cons x rest ih =>
    rw [List.pairwise_cons] at ordered
    rcases List.mem_cons.mp one with rfl | early
    · rcases List.mem_cons.mp other with rfl | late
      · exact absurd urgent (Int.lt_irrefl _)
      · exact List.Sublist.cons_cons _ (List.singleton_sublist.mpr late)
    · rcases List.mem_cons.mp other with rfl | late
      · have := ordered.1 a early
        omega
      · exact (ih ordered.2 early late).cons x

theorem Ordered.places (ordered : q.Ordered) (pushed : q.push? e = some r) :
    ∀ a ∈ q.entries, if e.priority < a.priority then r.Ahead e a else r.Ahead a e := by
  intro a among
  obtain ⟨front,back,split,placed,before,behind⟩ := place_between ordered e
  rw [Ahead,Ahead,push?_entries pushed,placed]
  rw [split] at among
  split
  · rename_i urgent
    rcases List.mem_append.mp among with early | late
    · have := before a early
      omega
    · exact ((List.singleton_sublist.mpr late).cons_cons e).trans (List.sublist_append_right _ _)
  · rename_i patient
    rcases List.mem_append.mp among with early | late
    · exact (List.singleton_sublist.mpr early).append ((List.nil_sublist back).cons_cons e)
    · exact absurd (behind a late) patient

end PriorityQueue

namespace Session
variable {device : Device} {format : Format} {timing : Timing} {now : Nat} {s t u : Session} {a b : Entry}

inductive Passes (device : Device) (format : Format) (timing : Timing) (now : Nat) : Session → Session → Prop where
  | here (s : Session) : Passes device format timing now s s
  | on {s t u out} (steps : Steps device format timing now s (t,out)) (passes : Passes device format timing now t u) :
    Passes device format timing now s u

theorem run_passes (device : Device) (format : Format) (timing : Timing) (now : Nat) (s : Session) :
    Passes device format timing now s (s.run device format timing now).1 := by
  fun_induction run device format timing now s with
  | case1 s quiet => exact .here s
  | case2 s t out stepped u more rest ih =>
    rw [rest] at ih
    exact .on (step_sound stepped) ih

theorem step_queue {r : Session × List SessionEvent} (steps : Steps device format timing now s r) :
    r.1.queue = s.queue ∨ ∃ e, s.queue.entries = e::r.1.queue.entries ∧ r.1.current? = some e := by
  cases steps with
  | @taken e q _ popped =>
    refine .inr ⟨e,?_⟩
    rw [PriorityQueue.pop_front popped]
    unfold takeUp
    split <;> exact ⟨rfl,rfl⟩
  | @dialed e ready failure => cases failure <;> exact .inl rfl
  | sent => exact .inl (by unfold transmit; dsimp only; split <;> rfl)
  | lost => exact .inl rfl
  | received => exact .inl (by unfold receive; split <;> split <;> rfl)
  | expired => exact .inl (by unfold expire; dsimp only; split <;> rfl)

theorem passes_queue (passes : Passes device format timing now s t) : t.queue.entries <:+ s.queue.entries := by
  induction passes with
  | here s => exact List.suffix_refl _
  | on steps _ ih =>
    rcases step_queue steps with same | ⟨e,front,_⟩
    · rw [← same]
      exact ih
    · rw [front]
      exact ih.trans (List.suffix_cons _ _)

-- The one that is in service was in front of the other, which is still queued.
def Chosen (t : Session) (a b : Entry) : Prop := t.current? = some a ∧ b ∈ t.queue.entries

theorem passes_ahead (ahead : s.queue.Ahead a b) (passes : Passes device format timing now s u) :
    u.queue.Ahead a b ∨ ∃ t, Passes device format timing now s t ∧ t.Chosen a b := by
  induction passes with
  | here s => exact .inl ahead
  | @on s t u out steps _ ih =>
    have onward (still : t.queue.Ahead a b) : u.queue.Ahead a b ∨ ∃ t, Passes device format timing now s t ∧ t.Chosen a b :=
      (ih still).imp id fun ⟨v,passes,chosen⟩ => ⟨v,.on steps passes,chosen⟩
    rcases step_queue steps with same | ⟨e,front,serving⟩
    · exact onward (same ▸ ahead)
    · rw [PriorityQueue.Ahead,front] at ahead
      cases ahead with
      | cons _ behind => exact onward behind
      | cons_cons _ behind => exact .inr ⟨t,.on steps (.here t),serving,List.singleton_sublist.mp behind⟩

theorem serve_queue (device : Device) (format : Format) (timing : Timing) (halted : Bool) (now : Nat) (s : Session) :
    (s.serve device format timing halted now).1.queue.entries <:+ s.queue.entries := by
  unfold serve
  split
  · by_cases finished : s.phase = .stopped
    · simp [halt_stopped finished]
    · rw [halt_live finished]
      exact List.nil_suffix
  · exact passes_queue (run_passes device format timing now s)

end Session
end ModbusMaster
