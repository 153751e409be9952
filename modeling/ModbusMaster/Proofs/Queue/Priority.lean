import ModbusMaster.Proofs.Session.Order
namespace ModbusMaster.PriorityQueue

-- A queue of requests told by what goes in and comes out: the order in which entries leave,
-- that each of them leaves once, and when there is one to be had.

structure Arrived where
  entry : Entry
  number : Nat
  deriving Repr, DecidableEq

namespace Arrived

def Before (a b : Arrived) : Prop :=
  a.entry.priority < b.entry.priority ∨ a.entry.priority = b.entry.priority ∧ a.number < b.number

-- The order of a heap that gives its greatest element first: both comparisons are turned round.
def rank (a b : Arrived) : Ordering :=
  (compare b.entry.priority a.entry.priority).then (compare b.number a.number)

def greatest? (heap : List Arrived) : Option Arrived := heap.find? fun a => heap.all fun b => b.rank a != .gt

def emptied : Nat → List Arrived → List Arrived
  | 0,_ => []
  | n+1,heap => match greatest? heap with
    | some a => a::emptied n (heap.erase a)
    | none => []

variable {a b c : Arrived} {heap order : List Arrived}

theorem rank_gt : a.rank b = .gt ↔ a.Before b := by
  rw [rank,Ordering.then_eq_gt,Int.compare_eq_gt,Std.LawfulEqOrd.compare_eq_iff_eq,Nat.compare_eq_gt]
  exact or_congr Iff.rfl (and_congr eq_comm Iff.rfl)

theorem Before.irrefl (a : Arrived) : ¬a.Before a := by
  unfold Before
  omega

theorem Before.asymm (before : a.Before b) : ¬b.Before a := by
  unfold Before at *
  omega

theorem greatest_iff (perm : heap.Perm (a::order)) (ordered : (a::order).Pairwise Before) :
    ∀ x ∈ heap, (∀ b ∈ heap, b.rank x ≠ .gt) ↔ x = a := by
  have behind := (List.pairwise_cons.mp ordered).1
  intro x member
  constructor
  · intro top
    rcases List.mem_cons.mp (perm.mem_iff.mp member) with same | later
    · exact same
    · exact absurd (rank_gt.mpr (behind x later)) (top a (perm.mem_iff.mpr List.mem_cons_self))
  · rintro rfl b among
    rw [ne_eq,rank_gt]
    rcases List.mem_cons.mp (perm.mem_iff.mp among) with rfl | later
    · exact Before.irrefl _
    · exact (behind b later).asymm

theorem greatest?_first (perm : heap.Perm (a::order)) (ordered : (a::order).Pairwise Before) : greatest? heap = some a := by
  have greatest : ∀ x ∈ heap, (heap.all fun b => b.rank x != .gt) = true ↔ x = a := by
    intro x member
    rw [← greatest_iff perm ordered x member,List.all_eq_true]
    simp only [bne_iff_ne]
  have there : a ∈ heap := perm.mem_iff.mpr List.mem_cons_self
  unfold greatest?
  cases found : heap.find? fun a => heap.all fun b => b.rank a != .gt with
  | none => exact absurd ((greatest a there).mpr rfl) (List.find?_eq_none.mp found a there)
  | some x =>
    have top := List.find?_some found
    exact congrArg some ((greatest x (List.mem_of_find?_eq_some found)).mp top)

theorem erase_first (perm : heap.Perm (a::order)) : (heap.erase a).Perm order := by
  simpa using perm.erase a

theorem emptied_ordered (perm : heap.Perm order) (ordered : order.Pairwise Before) : emptied heap.length heap = order := by
  rw [perm.length_eq]
  induction order generalizing heap with
  | nil => rfl
  | cons a order ih =>
    simp only [List.length_cons,emptied,greatest?_first perm ordered]
    rw [ih (erase_first perm) (List.pairwise_cons.mp ordered).2]

end Arrived

inductive Use where
  | push (e : Entry)
  | pop (halted : Bool)
  | close
  deriving Repr

-- A queue with all that it has taken in, and what it has handed out in its order. Beside it
-- is a heap of what should be left, by the order of its elements alone.
structure Ledger where
  queue : PriorityQueue
  taken : List Arrived
  handed : List Entry
  heap : List Arrived
  popped : List Arrived

namespace Ledger
variable {s : Ledger} {e : Entry} {q : PriorityQueue} {order : List Arrived}

def opened : Ledger := ⟨empty,[],[],[],[]⟩

def use (s : Ledger) : Use → Ledger
  | .push e => match s.queue.push? e with
    | some q =>
      let a : Arrived := ⟨e,s.taken.length⟩
      {s with queue:=q,taken:=s.taken ++ [a],heap:=s.heap ++ [a]}
    | none => s
  | .pop halted => match s.queue.pop halted with
    | (.item e,q) =>
      let a? := Arrived.greatest? s.heap
      {s with queue:=q,handed:=s.handed ++ [e],heap:=a?.elim s.heap s.heap.erase,popped:=s.popped ++ a?.toList}
    | (_,q) => {s with queue:=q}
  | .close => {s with queue:=s.queue.close.2,handed:=s.handed ++ s.queue.close.1,heap:=[],
                      popped:=s.popped ++ Arrived.emptied s.heap.length s.heap}

def uses : Ledger → List Use → Ledger
  | s,[] => s
  | s,a::rest => (s.use a).uses rest

structure Kept (s : Ledger) : Prop where
  ordered : ∃ order, s.heap.Perm order ∧ order.Pairwise Arrived.Before ∧ s.queue.entries = order.map (·.entry)
  numbered : s.taken.map (·.number) = List.range s.taken.length
  once : (s.popped ++ s.heap).Perm s.taken
  handed : s.handed = s.popped.map (·.entry)
  permits : s.queue.accepting = true → s.queue.permits = s.heap.length
  closed : s.queue.accepting = false → s.heap = []

theorem kept_opened : Kept opened :=
  ⟨⟨[],List.Perm.refl _,List.Pairwise.nil,rfl⟩,rfl,List.Perm.refl _,rfl,fun _ => rfl,fun _ => rfl⟩

theorem Kept.number_lt (kept : Kept s) : ∀ a ∈ s.heap, a.number < s.taken.length := by
  intro a member
  have among : a ∈ s.taken := kept.once.mem_iff.mp (List.mem_append_right _ member)
  have listed : a.number ∈ s.taken.map (·.number) := List.mem_map_of_mem among
  rwa [kept.numbered,List.mem_range] at listed

theorem push?_open (pushed : s.queue.push? e = some q) : s.queue.accepting = true ∧ q.accepting = true ∧
    q.permits = s.queue.permits+1 := by
  unfold push? at pushed
  split at pushed
  · rename_i accepting
    cases pushed
    exact ⟨accepting,accepting,rfl⟩
  · cases pushed

theorem push?_none : s.queue.push? e = none ↔ s.queue.accepting = false := by
  simp [push?]

-- The newcomer has the greatest number, so it goes behind those that are as urgent.
theorem kept_push (kept : Kept s) (pushed : s.queue.push? e = some q) :
    Kept {s with queue:=q,taken:=s.taken ++ [⟨e,s.taken.length⟩],heap:=s.heap ++ [⟨e,s.taken.length⟩]} := by
  have later := kept.number_lt
  obtain ⟨⟨order,perm,ordered,entries⟩,numbered,once,handed,permits,_⟩ := kept
  obtain ⟨accepting,still,more⟩ := push?_open pushed
  refine ⟨?_,?_,?_,handed,?_,?_⟩
  · have urgency : s.queue.entries.Pairwise fun a b => a.priority ≤ b.priority := by
      rw [entries,List.pairwise_map]
      exact ordered.imp fun before => by unfold Arrived.Before at before; omega
    obtain ⟨front,back,split,placed,before,behind⟩ := place_between urgency e
    rw [entries,List.map_eq_append_iff] at split
    obtain ⟨ahead,rest,rfl,rfl,rfl⟩ := split
    refine ⟨ahead ++ ⟨e,s.taken.length⟩::rest,?_,?_,?_⟩
    · exact ((List.perm_append_singleton _ _).trans (perm.cons _)).trans List.perm_middle.symm
    · rw [List.pairwise_append] at ordered
      obtain ⟨early,late,across⟩ := ordered
      rw [List.pairwise_append,List.pairwise_cons]
      refine ⟨early,⟨?_,late⟩,?_⟩
      · intro b member
        exact .inl (behind b.entry (List.mem_map_of_mem member))
      · intro a member
        rw [List.forall_mem_cons]
        refine ⟨?_,across a member⟩
        have least := before a.entry (List.mem_map_of_mem member)
        have number := later a (perm.mem_iff.mpr (List.mem_append_left _ member))
        show a.entry.priority < e.priority ∨ a.entry.priority = e.priority ∧ a.number < s.taken.length
        omega
    · rw [push?_entries pushed,placed]
      simp
  · rw [List.map_append,numbered,List.length_append]
    exact List.range_succ.symm
  · rw [← List.append_assoc]
    exact once.append_right _
  · intro _
    rw [more,permits accepting,List.length_append]
    rfl
  · intro shut
    cases still.symm.trans shut

theorem take_none (n : Nat) {q : PriorityQueue} (empty : q.entries = []) : take n q = (none,{q with permits:=0}) := by
  induction n with
  | zero => rfl
  | succ n ih => simp only [take,empty,ih]

inductive Pops (s : Ledger) : BoundedQueue.Taken Entry × PriorityQueue → Prop where
  | pending (heap : s.heap = []) : Pops s (.pending,{s.queue with permits:=0})
  | item {a order} (accepting : s.queue.accepting = true) (perm : s.heap.Perm (a::order))
    (ordered : (a::order).Pairwise Arrived.Before) :
      Pops s (.item a.entry,{s.queue with entries:=order.map (·.entry),permits:=order.length})

theorem Kept.pops (kept : Kept s) : Pops s (s.queue.pop false) := by
  obtain ⟨order,perm,ordered,entries⟩ := kept.ordered
  cases order with
  | nil =>
    have popped : s.queue.pop false = (.pending,{s.queue with permits:=0}) := by simp [pop,take_none _ entries]
    rw [popped]
    exact .pending perm.eq_nil
  | cons a order =>
    have accepting : s.queue.accepting = true := by
      refine (Bool.eq_false_or_eq_true s.queue.accepting).resolve_right fun shut => ?_
      rw [kept.closed shut] at perm
      exact absurd perm.symm.eq_nil (by simp)
    have permits : s.queue.permits = order.length+1 := (kept.permits accepting).trans perm.length_eq
    have popped : s.queue.pop false = (.item a.entry,{s.queue with entries:=order.map (·.entry),permits:=order.length}) := by
      simp [pop,permits,take,entries]
    rw [popped]
    exact .item accepting perm ordered

theorem kept_popped {a : Arrived} (kept : Kept s) (accepting : s.queue.accepting = true) (perm : s.heap.Perm (a::order))
    (ordered : (a::order).Pairwise Arrived.Before) :
    Kept {s with queue:={s.queue with entries:=order.map (·.entry),permits:=order.length},handed:=s.handed ++ [a.entry],
                 heap:=s.heap.erase a,popped:=s.popped ++ [a]} := by
  have left := Arrived.erase_first perm
  refine ⟨⟨order,left,(List.pairwise_cons.mp ordered).2,rfl⟩,kept.numbered,?_,?_,fun _ => left.length_eq.symm,?_⟩
  · rw [List.append_assoc]
    exact ((left.cons a).trans perm.symm).append_left _ |>.trans kept.once
  · rw [kept.handed,List.map_append]
    rfl
  · intro shut
    cases accepting.symm.trans shut

theorem kept_closed (kept : Kept s) : Kept (s.use .close) := by
  obtain ⟨⟨order,perm,ordered,entries⟩,numbered,once,handed,_,_⟩ := kept
  have all := Arrived.emptied_ordered perm ordered
  refine ⟨⟨[],List.Perm.refl _,List.Pairwise.nil,rfl⟩,numbered,?_,?_,fun open' => (by cases open'),fun _ => rfl⟩
  · show (s.popped ++ Arrived.emptied s.heap.length s.heap ++ []).Perm s.taken
    rw [all,List.append_nil]
    exact (perm.symm.append_left _).trans once
  · show s.handed ++ s.queue.entries = (s.popped ++ Arrived.emptied s.heap.length s.heap).map (·.entry)
    rw [all,handed,entries,List.map_append]

theorem use_popped {a : Arrived} (perm : s.heap.Perm (a::order)) (ordered : (a::order).Pairwise Arrived.Before)
    (popped : s.queue.pop false = (.item a.entry,q)) : s.use (.pop false) =
      {s with queue:=q,handed:=s.handed ++ [a.entry],heap:=s.heap.erase a,popped:=s.popped ++ [a]} := by
  simp only [use,popped,Arrived.greatest?_first perm ordered]
  rfl

theorem kept_use (kept : Kept s) (u : Use) : Kept (s.use u) := by
  cases u with
  | push e =>
    simp only [use]
    split
    · rename_i pushed
      exact kept_push kept pushed
    · exact kept
  | pop halted =>
    cases halted with
    | true => exact kept
    | false =>
      have pops := kept.pops
      generalize got : s.queue.pop false = r at pops
      cases pops with
      | pending heap =>
        simp only [use,got]
        obtain ⟨ordered,numbered,once,handed,_,closed⟩ := kept
        exact ⟨ordered,numbered,once,handed,fun _ => by rw [heap]; rfl,closed⟩
      | item accepting perm ordered =>
        rw [use_popped perm ordered got]
        exact kept_popped kept accepting perm ordered
  | close => exact kept_closed kept

theorem kept_uses (kept : Kept s) (us : List Use) : Kept (s.uses us) := by
  induction us generalizing s with
  | nil => exact kept
  | cons u us ih => exact ih (kept_use kept u)

theorem pop_accepting (halted : Bool) (q : PriorityQueue) : (q.pop halted).2.accepting = q.accepting := by
  have same (n : Nat) : (take n q).2.accepting = q.accepting := by
    fun_induction take n q with
    | case1 => rfl
    | case2 => rfl
    | case3 n empty ih => exact ih
  have same := same q.permits
  cases halted with
  | true => rfl
  | false =>
    simp only [pop,Bool.false_eq_true,if_false]
    generalize take q.permits q = r at same
    obtain ⟨first,left⟩ := r
    cases first <;> exact same

theorem use_accepting (s : Ledger) (u : Use) :
    (s.use u).queue.accepting = false ↔ s.queue.accepting = false ∨ u = .close := by
  cases u with
  | push e =>
    simp only [use]
    split
    · rename_i pushed
      obtain ⟨was,still,_⟩ := push?_open pushed
      simp [was,still]
    · simp
  | pop halted =>
    have same := pop_accepting halted s.queue
    generalize got : s.queue.pop halted = r at same
    obtain ⟨answer,left⟩ := r
    cases answer <;> simp only [use,got] <;> simpa using iff_of_eq (congrArg (· = false) same)
  | close => simp [use,PriorityQueue.close]

theorem uses_accepting (s : Ledger) (us : List Use) :
    (s.uses us).queue.accepting = false ↔ s.queue.accepting = false ∨ .close ∈ us := by
  induction us generalizing s with
  | nil => simp [uses]
  | cons u us ih => rw [uses,ih,use_accepting,List.mem_cons,or_assoc,eq_comm (a:=u)]

structure Exact (s : Ledger) : Prop where
  count : s.queue.len = s.heap.length
  -- what is handed out is the first by rank and arrival: there is one greatest element, and this is it
  first : ∀ e q, s.queue.pop false = (.item e,q) → ∃ a ∈ s.heap, a.entry = e ∧ (∀ b ∈ s.heap, b ≠ a → a.Before b) ∧
    (∀ b ∈ s.heap, (∀ c ∈ s.heap, c.rank b ≠ .gt) ↔ b = a) ∧ s.use (.pop false) =
      {s with queue:=q,handed:=s.handed ++ [e],heap:=s.heap.erase a,popped:=s.popped ++ [a]}
  -- all that was taken in is there or has been handed out, once
  numbered : s.taken.map (·.number) = List.range s.taken.length
  once : (s.popped ++ s.heap).Perm s.taken
  handed : s.handed = s.popped.map (·.entry)
  -- closing hands out the rest, in the same order
  rest : ∃ order, s.heap.Perm order ∧ order.Pairwise Arrived.Before ∧ s.queue.close.1 = order.map (·.entry) ∧
    s.use .close = {s with queue:={s.queue with entries:=[],accepting:=false},handed:=s.handed ++ order.map (·.entry),
                           heap:=[],popped:=s.popped ++ order}
  -- a queue that is open has a permit for each entry, and who comes waits if there is none
  permits : s.queue.accepting = true → s.queue.permits = s.heap.length
  waits : s.queue.accepting = true → ((s.queue.pop false).1 = .pending ↔ s.heap = [])
  yields : s.queue.accepting = true → s.heap ≠ [] → ∃ e q, s.queue.pop false = (.item e,q)
  halted : s.queue.pop true = (.shutdown,s.queue)
  refuses : ∀ e, s.queue.push? e = none ↔ s.queue.accepting = false
  refused : ∀ e, s.queue.push? e = none → s.use (.push e) = s
  -- one that was closed is empty, and nothing gets in or out any more
  shut : s.queue.accepting = false → s.heap = [] ∧ s.queue.entries = [] ∧ ∀ u, (s.use u).queue.accepting = false ∧
    (s.use u).queue.entries = [] ∧ (s.use u).taken = s.taken ∧ (s.use u).handed = s.handed

theorem Kept.count (kept : Kept s) : s.queue.len = s.heap.length := by
  obtain ⟨order,perm,_,entries⟩ := kept.ordered
  rw [len,entries,List.length_map,perm.length_eq]

theorem Kept.first (kept : Kept s) (popped : s.queue.pop false = (.item e,q)) : ∃ a ∈ s.heap, a.entry = e ∧
    (∀ b ∈ s.heap, b ≠ a → a.Before b) ∧ (∀ b ∈ s.heap, (∀ c ∈ s.heap, c.rank b ≠ .gt) ↔ b = a) ∧ s.use (.pop false) =
      {s with queue:=q,handed:=s.handed ++ [e],heap:=s.heap.erase a,popped:=s.popped ++ [a]} := by
  have pops := kept.pops
  rw [popped] at pops
  cases pops with
  | @item a order accepting perm ordered =>
    refine ⟨a,perm.mem_iff.mpr List.mem_cons_self,rfl,?_,Arrived.greatest_iff perm ordered,use_popped perm ordered popped⟩
    intro b member other
    exact (List.pairwise_cons.mp ordered).1 b ((List.mem_cons.mp (perm.mem_iff.mp member)).resolve_left other)

theorem Kept.rest (kept : Kept s) : ∃ order, s.heap.Perm order ∧ order.Pairwise Arrived.Before ∧
    s.queue.close.1 = order.map (·.entry) ∧ s.use .close =
      {s with queue:={s.queue with entries:=[],accepting:=false},handed:=s.handed ++ order.map (·.entry),heap:=[],
              popped:=s.popped ++ order} := by
  obtain ⟨order,perm,ordered,entries⟩ := kept.ordered
  refine ⟨order,perm,ordered,entries,?_⟩
  simp only [use,PriorityQueue.close,entries,Arrived.emptied_ordered perm ordered]

theorem Kept.shut (kept : Kept s) (closed : s.queue.accepting = false) (u : Use) : (s.use u).queue.accepting = false ∧
    (s.use u).queue.entries = [] ∧ (s.use u).taken = s.taken ∧ (s.use u).handed = s.handed := by
  have heap := kept.closed closed
  have entries : s.queue.entries = [] := List.eq_nil_of_length_eq_zero (kept.count.trans (by rw [heap]; rfl))
  refine ⟨(use_accepting s u).mpr (.inl closed),?_⟩
  cases u with
  | push e =>
    simp only [use,push?_none.mpr closed]
    exact ⟨entries,trivial,trivial⟩
  | pop halted =>
    cases halted with
    | true => exact ⟨entries,rfl,rfl⟩
    | false =>
      have nothing : s.queue.pop false = (.pending,{s.queue with permits:=0}) := by simp [pop,take_none _ entries]
      simp only [use,nothing]
      exact ⟨entries,trivial,trivial⟩
  | close =>
    simp only [use,PriorityQueue.close,entries,List.append_nil]
    exact ⟨trivial,trivial,trivial⟩

theorem Kept.exact (kept : Kept s) : Exact s := by
  have pops := kept.pops
  refine ⟨kept.count,fun e q popped => kept.first popped,kept.numbered,kept.once,kept.handed,kept.rest,kept.permits,?_,?_,rfl,
    fun e => push?_none,?_,?_⟩
  · intro accepting
    generalize s.queue.pop false = r at pops
    cases pops with
    | pending heap => exact iff_of_true rfl heap
    | item _ perm => exact iff_of_false (by simp) fun none => by simp [none] at perm
  · intro accepting some
    generalize s.queue.pop false = r at pops
    cases pops with
    | pending heap => exact absurd heap some
    | item => exact ⟨_,_,rfl⟩
  · intro e refused
    simp only [use,refused]
  · intro closed
    refine ⟨kept.closed closed,?_,kept.shut closed⟩
    exact List.eq_nil_of_length_eq_zero (kept.count.trans (by rw [kept.closed closed]; rfl))

theorem served_in_order (us : List Use) :
    Exact (opened.uses us) ∧ ((opened.uses us).queue.accepting = false ↔ .close ∈ us) := by
  refine ⟨(kept_uses kept_opened us).exact,?_⟩
  rw [uses_accepting]
  exact or_iff_right (by simp [opened,empty])

end Ledger
end ModbusMaster.PriorityQueue
