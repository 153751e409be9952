import Mathlib.Data.List.Perm.Basic
import ModbusMaster.Proofs.Queue.Traffic
import ModbusMaster.Proofs.Reporting.Pending
import ModbusMaster.Proofs.Reporting.Staff
namespace ModbusMaster

-- The two ways from a finished request to its report: over the queue and through a worker or the
-- last drain, or in the hands of the call that found the queue full. All of them ask one table,
-- each in two steps, and in whatever order the calls come to them.

namespace OpenRequests
variable {t u v : OpenRequests} {cs ds : List Completion} {c : Completion}

structure Same (t u : OpenRequests) : Prop where
  requests : ∀ id : UInt16, t.requests[id]? = u.requests[id]?
  awaiting : ∀ key, t.isAwaiting key = u.isAwaiting key
  last : t.last = u.last

def answer? (t : OpenRequests) (c : Completion) : Option Report := t.requests[c.app]?.map (Report.ofCompletion · c)

structure After (t : OpenRequests) (cs : List Completion) (u : OpenRequests) : Prop where
  requests : ∀ id : UInt16, u.requests[id]? = if id ∈ cs.map (·.app) then none else t.requests[id]?
  awaiting : ∀ key, u.isAwaiting key = (t.isAwaiting key && !cs.any fun c => t.requests[c.app]?.any (·.polls key))
  last : u.last = t.last

theorem after_nil (t : OpenRequests) : After t [] t := ⟨fun _ => rfl,fun _ => (Bool.and_true _).symm,rfl⟩

theorem After.perm (after : After t cs u) (perm : cs.Perm ds) : After t ds u := by
  refine ⟨fun id => ?_,fun key => ?_,after.last⟩
  · rw [after.requests,if_congr (perm.map (·.app)).mem_iff rfl rfl]
  · rw [after.awaiting,perm.any_eq]

theorem After.same (one : After t cs u) (two : After t cs v) : Same u v :=
  ⟨fun id => (one.requests id).trans (two.requests id).symm,fun key => (one.awaiting key).trans (two.awaiting key).symm,
    one.last.trans two.last.symm⟩

theorem After.fresh (after : After t cs u) (fresh : c.app ∉ cs.map (·.app)) : u.requests[c.app]? = t.requests[c.app]? :=
  (after.requests c.app).trans (if_neg fresh)

theorem After.some {r : OpenRequest} (after : After t cs u) (fresh : c.app ∉ cs.map (·.app))
    (taken : u.take? c.app = some (r,v)) : t.answer? c = some (Report.ofCompletion r c) ∧ After t (c::cs) v := by
  have here : t.requests[c.app]? = Option.some r := (after.fresh fresh).symm.trans (take?_some taken)
  refine ⟨by rw [answer?,here,Option.map_some],fun id => ?_,fun key => ?_,?_⟩
  · rw [take?_get? taken,after.requests,List.map_cons]
    by_cases same : c.app = id
    · simp [same]
    · simp [same,Ne.symm same]
  · rw [take?_isAwaiting taken,after.awaiting,List.any_cons,here,Option.any_some,Bool.not_or,Bool.and_assoc,
      Bool.and_comm (!r.polls key)]
  · unfold take? at taken
    split at taken <;> cases taken
    exact after.last

theorem After.none (after : After t cs u) (fresh : c.app ∉ cs.map (·.app)) (vacant : u.requests[c.app]? = none) :
    t.answer? c = none ∧ After t (c::cs) u := by
  have here : t.requests[c.app]? = Option.none := (after.fresh fresh).symm.trans vacant
  refine ⟨by rw [answer?,here,Option.map_none],fun id => ?_,fun key => ?_,after.last⟩
  · rw [after.requests,List.map_cons]
    by_cases same : id = c.app
    · subst same
      simp [here]
    · simp [same]
  · rw [after.awaiting,List.any_cons,here,Option.any_none,Bool.false_or]

end OpenRequests

namespace Reporter
open OpenRequests
variable {p : Reporter} {t : OpenRequests} {cs : List Completion} {c : Completion}

def processAll : Reporter → List Completion → List Report × Reporter
  | p,[] => ([],p)
  | p,c::rest =>
    let (told,q) := p.process c
    let (more,u) := q.processAll rest
    (told.toList ++ more,u)

theorem process_vacant (vacant : p.pending.requests[c.app]? = none) : p.process c = (none,p) := by
  simp [process,take?,vacant]

theorem process_after {seen : List Completion} (after : After t seen p.pending) (fresh : c.app ∉ seen.map (·.app)) :
    (p.process c).1 = t.answer? c ∧ After t (c::seen) (p.process c).2.pending := by
  unfold process
  cases taken : p.pending.take? c.app with
  | none =>
    obtain ⟨silent,left⟩ := after.none fresh (take?_none.mp taken)
    exact ⟨silent.symm,left⟩
  | some found =>
    obtain ⟨told,left⟩ := after.some fresh taken
    exact ⟨told.symm,left⟩

theorem processAll_after {seen : List Completion} (after : After t seen p.pending)
    (apart : ((cs ++ seen).map (·.app)).Nodup) :
    (p.processAll cs).1 = cs.filterMap t.answer? ∧ After t (cs ++ seen) (p.processAll cs).2.pending := by
  induction cs generalizing p seen with
  | nil => exact ⟨rfl,after⟩
  | cons c rest ih =>
    have moved : (rest ++ c::seen).Perm (c::rest ++ seen) := List.perm_middle
    obtain ⟨first,_⟩ := List.nodup_cons.mp apart
    have fresh : c.app ∉ seen.map (·.app) := fun among => first (by simp [List.mem_map.mp among])
    obtain ⟨told,left⟩ := process_after after fresh
    obtain ⟨more,last⟩ := ih left ((moved.map (·.app)).nodup_iff.mpr apart)
    refine ⟨?_,last.perm moved⟩
    show (p.process c).1.toList ++ ((p.process c).2.processAll rest).1 = _
    rw [more,told]
    cases answered : t.answer? c <;> simp [answered]

theorem processAll_apart (apart : (cs.map (·.app)).Nodup) :
    (p.processAll cs).1 = cs.filterMap p.pending.answer? ∧ After p.pending cs (p.processAll cs).2.pending := by
  have apart : ((cs ++ [] : List Completion).map (·.app)).Nodup := by rwa [List.append_nil]
  have whole := processAll_after (after_nil p.pending) apart
  rwa [List.append_nil] at whole

end Reporter

inductive Chore where
  | response (c : Completion)
  | report (r : Report)
  deriving Repr

structure Hand where
  call : Nat
  chore : Chore
  deriving Repr

namespace Hand

def response? (h : Hand) : Option Completion :=
  match h.chore with
  | .response c => some c
  | .report _ => none

def report? (h : Hand) : Option Report :=
  match h.chore with
  | .response _ => none
  | .report r => some r

end Hand

-- The queue of responses among its calls, the table that all of them ask, what they have in hand and
-- what they have published.
structure Desk where
  floor : Traffic.Floor Completion
  pending : OpenRequests
  hands : List Hand
  published : List Report

namespace Desk
open OpenRequests Traffic
variable {t : OpenRequests} {d e : Desk} {f g : Floor Completion} {cs told looked : List Completion} {c : Completion}
  {k capacity : Nat}

inductive Act where
  | traffic (a : Traffic.Act Completion)
  | look (k : Nat)
  | publish (k : Nat)
  deriving Repr

def Act.handed : Act → List Completion
  | traffic (.offer c) => [c]
  | _ => []

def opened (t : OpenRequests) (capacity : Nat) : Desk := ⟨Floor.opened capacity,t,[],[]⟩

def reporter (d : Desk) : Reporter := ⟨d.pending,d.floor.queue⟩

def unread (d : Desk) : List Completion := d.hands.filterMap Hand.response?
def drafts (d : Desk) : List Report := d.hands.filterMap Hand.report?

-- What the queue refuses stays with the call that offers it, what leaves it is the taker's.
def brings (f : Floor Completion) : Traffic.Act Completion → List Hand
  | .offer c => if (f.queue.append? c).isNone then [⟨f.calls.length,.response c⟩] else []
  | .remove i => f.queue.removeFront.1.toList.map fun c => ⟨i,.response c⟩
  | _ => []

def occupied (d : Desk) : Traffic.Act Completion → Bool
  | .again i => d.hands.any (·.call == i)
  | _ => false

def perform (d : Desk) : Act → Option Desk
  | .traffic a => if d.occupied a then none
    else (d.floor.perform a).map fun f => {d with floor:=f,hands:=d.hands ++ brings d.floor a}
  | .look k => match d.hands[k]? with
    | some ⟨i,.response c⟩ => match d.pending.take? c.app with
      | some (r,t) => some {d with pending:=t,hands:=d.hands.set k ⟨i,.report (Report.ofCompletion r c)⟩}
      | none => some {d with hands:=d.hands.eraseIdx k}
    | _ => none
  | .publish k => match d.hands[k]? with
    | some ⟨_,.report r⟩ => some {d with hands:=d.hands.eraseIdx k,published:=d.published ++ [r]}
    | _ => none

def run : Desk → List Act → Option Desk
  | d,[] => some d
  | d,a::acts => (d.perform a).bind (run · acts)

structure Rests (d : Desk) : Prop where
  calls : ∀ u ∈ d.floor.calls, u.owes = false
  hands : d.hands = []

-- A step of the queue loses no response: what it gave up or would not take is in a hand.
theorem goods_performed {a : Traffic.Act Completion} (performed : f.perform a = some g) :
    (g.queue.items ++ (brings f a).filterMap Hand.response?).Perm (f.queue.items ++ Act.handed (.traffic a)) := by
  cases a with
  | offer c =>
    simp only [Floor.perform] at performed
    cases taken : f.queue.append? c with
    | none =>
      rw [taken] at performed
      cases performed
      simp [brings,taken,Act.handed,Hand.response?,Floor.join]
    | some q =>
      rw [taken] at performed
      cases performed
      cases BoundedQueue.append?_some taken
      simp [brings,taken,Act.handed]
  | remove i =>
    simp only [Floor.perform,BoundedQueue.removeFront] at performed
    split at performed
    · rename_i x q was front
      split at front
      · cases front
      · rename_i rest items
        cases front
        cases performed
        simp [brings,BoundedQueue.removeFront,items,Act.handed,Hand.response?]
    · rename_i q was front
      split at front
      · rename_i empty
        cases front
        cases performed
        simp [brings,BoundedQueue.removeFront,empty,Act.handed]
      · cases front
    · cases performed
  | _ => cases Floor.alters performed <;> exact List.Perm.refl _

theorem hand_taken {h : Hand} (there : d.hands[k]? = some h) : d.hands.Perm (h::d.hands.eraseIdx k) := by
  obtain ⟨below,rfl⟩ := List.getElem?_eq_some_iff.mp there
  exact (List.getElem_cons_eraseIdx_perm below).symm

theorem hand_exchanged {h : Hand} (there : d.hands[k]? = some h) (u : Hand) : (d.hands.set k u).Perm (u::d.hands.eraseIdx k) :=
  List.set_perm_cons_eraseIdx (List.getElem?_eq_some_iff.mp there).1 u

structure Told (t : OpenRequests) (told looked : List Completion) (d : Desk) : Prop where
  whereabouts : told.Perm (looked ++ (d.unread ++ d.floor.queue.items))
  table : After t looked d.pending
  reports : (d.published ++ d.drafts).Perm (looked.filterMap t.answer?)

theorem told_opened (t : OpenRequests) (capacity : Nat) : Told t [] [] (opened t capacity) :=
  ⟨List.Perm.refl _,after_nil t,List.Perm.refl _⟩

theorem Told.fresh {i : Nat} (kept : Told t told looked d) (apart : (told.map (·.app)).Nodup)
    (there : d.hands[k]? = some ⟨i,.response c⟩) : c.app ∉ looked.map (·.app) := by
  have apart := (kept.whereabouts.map (·.app)).nodup_iff.mp apart
  rw [List.map_append,List.nodup_append] at apart
  have among : c ∈ d.unread := List.mem_filterMap.mpr ⟨_,List.mem_of_getElem? there,rfl⟩
  intro asked
  exact apart.2.2 _ asked _ (List.mem_map_of_mem (List.mem_append_left _ among)) rfl

theorem brings_unread (f : Floor Completion) (a : Traffic.Act Completion) : (brings f a).filterMap Hand.report? = [] := by
  unfold brings
  split
  · split <;> rfl
  · cases f.queue.removeFront.1 <;> rfl
  · rfl

theorem Told.traffic {a : Traffic.Act Completion} (kept : Told t told looked d) (performed : d.floor.perform a = some f) :
    Told t (told ++ Act.handed (.traffic a)) looked {d with floor:=f,hands:=d.hands ++ brings d.floor a} := by
  let brought := (brings d.floor a).filterMap Hand.response?
  have unread : Desk.unread {d with floor:=f,hands:=d.hands ++ brings d.floor a} = d.unread ++ brought := List.filterMap_append
  have drafts : Desk.drafts {d with floor:=f,hands:=d.hands ++ brings d.floor a} = d.drafts := by
    unfold Desk.drafts
    rw [List.filterMap_append,brings_unread,List.append_nil]
  have goods : (brought ++ f.queue.items).Perm (d.floor.queue.items ++ Act.handed (.traffic a)) :=
    List.perm_append_comm.trans (goods_performed performed)
  refine ⟨?_,kept.table,?_⟩
  · rw [unread,List.append_assoc]
    calc told ++ Act.handed (.traffic a)
      _ |>.Perm ((looked ++ (d.unread ++ d.floor.queue.items)) ++ Act.handed (.traffic a)) := kept.whereabouts.append_right _
      _ = looked ++ (d.unread ++ (d.floor.queue.items ++ Act.handed (.traffic a))) := by simp only [List.append_assoc]
      _ |>.Perm (looked ++ (d.unread ++ (brought ++ f.queue.items))) := (goods.symm.append_left _).append_left _
  · rw [drafts]
    exact kept.reports

theorem Told.look (kept : Told t told looked d) (apart : (told.map (·.app)).Nodup) (performed : d.perform (.look k) = some e) :
    ∃ c, Told t told (c::looked) e := by
  simp only [perform] at performed
  split at performed
  · rename_i i c there
    have fresh := kept.fresh apart there
    have hands := hand_taken there
    have unread : d.unread.Perm (c::(d.hands.eraseIdx k).filterMap Hand.response?) := hands.filterMap Hand.response?
    have drafts : d.drafts.Perm ((d.hands.eraseIdx k).filterMap Hand.report?) := hands.filterMap Hand.report?
    -- the response passes from the hands to those that were looked up
    have passes : told.Perm (c::looked ++ ((d.hands.eraseIdx k).filterMap Hand.response? ++ d.floor.queue.items)) :=
      kept.whereabouts.trans (((unread.append_right _).append_left _).trans List.perm_middle)
    refine ⟨c,?_⟩
    split at performed
    · rename_i r u taken
      obtain ⟨answered,table⟩ := kept.table.some fresh taken
      cases performed
      have exchanged := hand_exchanged there ⟨i,.report (Report.ofCompletion r c)⟩
      refine ⟨passes.trans (((exchanged.filterMap Hand.response?).symm.append_right _).append_left _),table,?_⟩
      rw [List.filterMap_cons_some answered]
      refine ((exchanged.filterMap Hand.report?).append_left _).trans (List.perm_middle.trans (List.Perm.cons _ ?_))
      exact (drafts.symm.append_left _).trans kept.reports
    · rename_i absent
      obtain ⟨silent,table⟩ := kept.table.none fresh (take?_none.mp absent)
      cases performed
      refine ⟨passes,table,?_⟩
      rw [List.filterMap_cons_none silent]
      exact (drafts.symm.append_left _).trans kept.reports
  · cases performed

theorem Told.publish (kept : Told t told looked d) (performed : d.perform (.publish k) = some e) : Told t told looked e := by
  simp only [perform] at performed
  split at performed
  · rename_i i r there
    cases performed
    have hands := hand_taken there
    have unread : d.unread.Perm ((d.hands.eraseIdx k).filterMap Hand.response?) := hands.filterMap Hand.response?
    have drafts : d.drafts.Perm (r::(d.hands.eraseIdx k).filterMap Hand.report?) := hands.filterMap Hand.report?
    refine ⟨kept.whereabouts.trans ((unread.append_right _).append_left _),kept.table,?_⟩
    show (d.published ++ [r] ++ (d.hands.eraseIdx k).filterMap Hand.report?).Perm _
    rw [List.append_assoc]
    exact (drafts.symm.append_left _).trans kept.reports
  · cases performed

theorem Told.performed {a : Act} (kept : Told t told looked d) (apart : (told.map (·.app)).Nodup)
    (performed : d.perform a = some e) : ∃ looked, Told t (told ++ a.handed) looked e := by
  cases a with
  | traffic a =>
    simp only [perform] at performed
    split at performed
    · cases performed
    · obtain ⟨f,moved,rfl⟩ := Option.map_eq_some_iff.mp performed
      exact ⟨looked,kept.traffic moved⟩
  | look k =>
    obtain ⟨c,looks⟩ := kept.look apart performed
    refine ⟨c::looked,?_⟩
    show Told t (told ++ []) (c::looked) e
    rw [List.append_nil]
    exact looks
  | publish k =>
    refine ⟨looked,?_⟩
    show Told t (told ++ []) looked e
    rw [List.append_nil]
    exact kept.publish performed

def handed (acts : List Act) : List Completion := acts.flatMap Act.handed

theorem run_cons {a : Act} {acts : List Act} (ran : d.run (a::acts) = some e) :
    ∃ m, d.perform a = some m ∧ m.run acts = some e :=
  Option.bind_eq_some_iff.mp ran

theorem Told.ran {acts : List Act} (kept : Told t told looked d) (apart : ((told ++ handed acts).map (·.app)).Nodup)
    (ran : d.run acts = some e) : ∃ looked, Told t (told ++ handed acts) looked e := by
  induction acts generalizing d told looked with
  | nil =>
    cases ran
    exact ⟨looked,by rw [handed,List.flatMap_nil,List.append_nil]; exact kept⟩
  | cons a acts ih =>
    obtain ⟨m,performed,rest⟩ := run_cons ran
    rw [handed,List.flatMap_cons,← List.append_assoc] at apart ⊢
    have before : (told.map (·.app)).Nodup := by
      rw [List.append_assoc,List.map_append] at apart
      exact (List.nodup_append.mp apart).1
    obtain ⟨looked,kept⟩ := kept.performed before performed
    exact ih kept apart rest

theorem floor_performed {a : Act} (performed : d.perform a = some e) :
    e.floor = d.floor ∨ ∃ b, d.floor.perform b = some e.floor := by
  cases a with
  | traffic b =>
    simp only [perform] at performed
    split at performed
    · cases performed
    · obtain ⟨f,moved,rfl⟩ := Option.map_eq_some_iff.mp performed
      exact .inr ⟨b,moved⟩
  | look k =>
    simp only [perform] at performed
    split at performed
    · split at performed <;> cases performed <;> exact .inl rfl
    · cases performed
  | publish k =>
    simp only [perform] at performed
    split at performed <;> cases performed
    exact .inl rfl

theorem steady_ran {acts : List Act} {n : Nat} (steady : Floor.Steady n d.floor) (ran : d.run acts = some e) :
    Floor.Steady n e.floor := by
  induction acts generalizing d with
  | nil =>
    cases ran
    exact steady
  | cons a acts ih =>
    obtain ⟨m,performed,rest⟩ := run_cons ran
    refine ih ?_ rest
    rcases floor_performed performed with same | ⟨b,moved⟩
    · exact same ▸ steady
    · exact steady.performed moved

theorem Rests.counted {n : Nat} (rests : d.Rests) (steady : Floor.Steady n d.floor) :
    d.floor.queue.items.length = d.floor.queue.permits := by
  have calls : d.floor.calls.countP Call.owes = 0 := List.countP_eq_zero.mpr fun u among => by simp [rests.calls u among]
  rw [steady.counted,calls,Nat.add_zero]

theorem Rests.empty {n : Nat} (rests : d.Rests) (steady : Floor.Steady n d.floor) (drained : d.floor.queue.acquire? = none) :
    d.floor.queue.items = [] := by
  apply List.eq_nil_of_length_eq_zero
  rw [rests.counted steady]
  unfold BoundedQueue.acquire? at drained
  split at drained
  · assumption
  · cases drained

theorem Rests.drain_empty {n : Nat} (rests : d.Rests) (steady : Floor.Steady n d.floor) :
    d.reporter.drain.2.2.queue.items = [] := by
  have counted := rests.counted steady
  have staffs : Pool.empty.Staffs d.reporter.queue := ⟨counted.symm,List.nodup_nil,fun w member => nomatch member⟩
  have left := (Reporter.drainUpTo_staffs (n:=d.reporter.queue.permits) staffs).counted
  rw [Reporter.drainUpTo_permits staffs.enough (Nat.le_refl _)] at left
  exact List.eq_nil_of_length_eq_zero left.symm

theorem Told.settled (kept : Told t told looked d) (hands : d.hands = []) (items : d.floor.queue.items = []) :
    d.published.Perm (told.filterMap t.answer?) ∧ After t told d.pending := by
  have asked : told.Perm looked := by
    have whereabouts := kept.whereabouts
    rw [unread,hands,items] at whereabouts
    simpa using whereabouts
  have reports := kept.reports
  rw [drafts,hands,List.filterMap_nil,List.append_nil] at reports
  exact ⟨reports.trans (asked.symm.filterMap _),kept.table.perm asked.symm⟩

theorem run_append {acts more : List Act} (ran : d.run acts = some e) : d.run (acts ++ more) = e.run more := by
  induction acts generalizing d with
  | nil =>
    cases ran
    rfl
  | cons a acts ih =>
    obtain ⟨m,performed,rest⟩ := run_cons ran
    show (d.perform a).bind (run · (acts ++ more)) = _
    rw [performed]
    exact ih rest

def Comes (d : Desk) (cs : List Completion) (hands : List Hand) (reports : List Report) (p : Reporter) : Prop :=
  ∃ acts e, handed acts = cs ∧ d.run acts = some e ∧ e.hands = hands ∧ e.published = d.published ++ reports ∧
    e.reporter = p

theorem Comes.behind {m : Desk} {hands : List Hand} {first reports : List Report} {p : Reporter} {acts : List Act}
    (ran : d.run acts = some m) (published : m.published = d.published ++ first) (comes : m.Comes cs hands reports p) :
    d.Comes (handed acts ++ cs) hands (first ++ reports) p := by
  obtain ⟨more,e,given,rest,left,told,now⟩ := comes
  refine ⟨acts ++ more,e,?_,(run_append ran).trans rest,left,?_,now⟩
  · rw [handed,List.flatMap_append,← given]
    rfl
  · rw [told,published,List.append_assoc]

theorem process_in_a_row {before : List Hand} {i : Nat} (hands : d.hands = before ++ [⟨i,.response c⟩]) :
    d.Comes [] before (d.reporter.process c).1.toList (d.reporter.process c).2 := by
  unfold Reporter.process
  cases taken : d.reporter.pending.take? c.app with
  | none =>
    have taken : d.pending.take? c.app = none := taken
    refine ⟨[.look before.length],{d with hands:=before},rfl,?_,rfl,(List.append_nil _).symm,rfl⟩
    simp [run,perform,taken,hands,List.eraseIdx_append]
  | some found =>
    have taken : d.pending.take? c.app = some found := taken
    let told := Report.ofCompletion found.1 c
    refine ⟨[.look before.length,.publish before.length],
      {d with pending:=found.2,hands:=before,published:=d.published ++ [told]},rfl,?_,rfl,rfl,rfl⟩
    simp [run,perform,taken,hands,List.eraseIdx_append,told]

theorem complete_in_a_row (d : Desk) (c : Completion) :
    d.Comes [c] d.hands (d.reporter.complete c).1.toList (d.reporter.complete c).2 := by
  unfold Reporter.complete Reporter.accept
  cases taken : d.reporter.queue.append? c with
  | some q =>
    have taken : d.floor.queue.append? c = some q := taken
    let u : Floor Completion := {d.floor.join (.pushed c) with queue:=q.signal}
    let i := d.floor.calls.length
    refine ⟨[.traffic (.offer c),.traffic (.signal i)],{d with floor:=u},rfl,?_,rfl,(List.append_nil _).symm,rfl⟩
    simp [run,perform,occupied,brings,Floor.perform,taken,Floor.join,Floor.put,u,i]
  | none =>
    have taken : d.floor.queue.append? c = none := taken
    let refused : Hand := ⟨d.floor.calls.length,.response c⟩
    let m : Desk := {d with floor:=d.floor.join (.refused c),hands:=d.hands ++ [refused]}
    have offered : d.run [.traffic (.offer c)] = some m := by
      simp [run,perform,occupied,brings,Floor.perform,taken,m,refused]
    have nothing : m.published = d.published ++ [] := (List.append_nil _).symm
    exact (process_in_a_row (d:=m) rfl).behind offered nothing

theorem drain_in_a_row (d : Desk) (n : Nat) :
    d.Comes [] d.hands (Reporter.drainUpTo n d.reporter).2.1 (Reporter.drainUpTo n d.reporter).2.2 := by
  induction n generalizing d with
  | zero => exact ⟨[],d,rfl,rfl,rfl,(List.append_nil _).symm,rfl⟩
  | succ n ih =>
    unfold Reporter.drainUpTo BoundedQueue.takeNow
    cases permit : d.reporter.queue.acquire? with
    | none => exact ⟨[],d,rfl,rfl,rfl,(List.append_nil _).symm,rfl⟩
    | some q =>
      have permit : d.floor.queue.acquire? = some q := permit
      let i := d.floor.calls.length
      dsimp only
      cases front : q.removeFront with
      | mk x rest =>
        cases x with
        | none =>
          let u : Floor Completion := {d.floor.join .stopped with queue:=rest}
          refine ⟨[.traffic .attempt,.traffic (.remove i)],{d with floor:=u},rfl,?_,rfl,(List.append_nil _).symm,rfl⟩
          simp [run,perform,occupied,brings,Floor.perform,permit,front,Floor.join,Floor.put,u,i]
        | some c =>
          let u : Floor Completion := {d.floor.join (.got c) with queue:=rest,removed:=d.floor.removed ++ [c]}
          let m : Desk := {d with floor:=u,hands:=d.hands ++ [⟨i,.response c⟩]}
          have taken : d.run [.traffic .attempt,.traffic (.remove i)] = some m := by
            simp [run,perform,occupied,brings,Floor.perform,permit,front,Floor.join,Floor.put,u,i,m]
          obtain ⟨acts,e,given,ran,left,told,now⟩ := process_in_a_row (d:=m) rfl
          have more := ih e
          rw [left,now] at more
          have more := more.behind ran told
          rw [given] at more
          have nothing : m.published = d.published ++ [] := (List.append_nil _).symm
          have whole := more.behind taken nothing
          exact whole

structure Agrees (t : OpenRequests) (capacity : Nat) (acts : List Act) (d : Desk) : Prop where
  -- once all is done it is what processing in the order of arrival comes to
  settled : d.Rests → d.floor.queue.acquire? = none →
    d.published.Perm ((opened t capacity).reporter.processAll (handed acts)).1 ∧
      Same d.pending ((opened t capacity).reporter.processAll (handed acts)).2.pending
  -- and what a drain without company still has to do brings that about
  drained : d.Rests → (d.published ++ d.reporter.drain.2.1).Perm ((opened t capacity).reporter.processAll (handed acts)).1 ∧
    Same d.reporter.drain.2.2.pending ((opened t capacity).reporter.processAll (handed acts)).2.pending
  -- a response in a hand finds what was open under its reference at first; with nothing there it is dropped
  found : ∀ (k i : Nat) (c : Completion), d.hands[k]? = some ⟨i,.response c⟩ →
    d.pending.requests[c.app]? = t.requests[c.app]?
  dropped : ∀ (k i : Nat) (c : Completion), d.hands[k]? = some ⟨i,.response c⟩ → t.requests[c.app]? = none →
    d.perform (.look k) = some {d with hands:=d.hands.eraseIdx k}
  strays : ∀ (p : Reporter) (c : Completion), p.pending.requests[c.app]? = none → p.process c = (none,p)

theorem paths_agree {acts : List Act} (ran : (opened t capacity).run acts = some d) (apart : ((handed acts).map (·.app)).Nodup) :
    Agrees t capacity acts d := by
  obtain ⟨looked,kept⟩ := (told_opened t capacity).ran apart ran
  rw [List.nil_append] at kept
  have steady := steady_ran (Floor.opened_steady capacity) ran
  obtain ⟨inline,table⟩ : ((opened t capacity).reporter.processAll (handed acts)).1 = (handed acts).filterMap t.answer? ∧
      After t (handed acts) ((opened t capacity).reporter.processAll (handed acts)).2.pending :=
    Reporter.processAll_apart apart
  have found (k i : Nat) (c : Completion) (there : d.hands[k]? = some ⟨i,.response c⟩) :
      d.pending.requests[c.app]? = t.requests[c.app]? := kept.table.fresh (kept.fresh apart there)
  refine ⟨fun rests drained => ?_,fun rests => ?_,found,fun k i c there vacant => ?_,fun p c => Reporter.process_vacant⟩
  · obtain ⟨published,after⟩ := kept.settled rests.hands (rests.empty steady drained)
    exact ⟨inline ▸ published,after.same table⟩
  · obtain ⟨more,e,nothing,on,hands,published,now⟩ := drain_in_a_row d d.reporter.queue.permits
    obtain ⟨looked,kept⟩ := kept.ran (by rwa [nothing,List.append_nil]) on
    rw [nothing,List.append_nil] at kept
    have items : e.floor.queue.items = [] := (congrArg (·.queue.items) now).trans (rests.drain_empty steady)
    have pending : e.pending = d.reporter.drain.2.2.pending := congrArg (·.pending) now
    obtain ⟨whole,after⟩ := kept.settled (hands.trans rests.hands) items
    rw [published] at whole
    exact ⟨inline ▸ whole,(pending ▸ after).same table⟩
  · have vacant : d.pending.requests[c.app]? = none := (found k i c there).trans vacant
    simp [perform,there,take?,vacant]

-- One place in the queue. The worker sleeps until the response under 1 is queued; the one under 2 finds
-- the queue full and overtakes it, and the one under 9, which nobody waits for, is left to the drain.
def level : Point := ⟨"well","tank","level",none,1,.holding,7,1,.int,Double.one,false,false,some 1000,1⟩

def twoOpen : OpenRequests :=
  ⟨(Std.TreeMap.empty.insert 1 (.periodic level)).insert 2 ⟨level,.onDemandRead,some "4",none,none⟩,
    Std.TreeSet.empty.insert level.key,2⟩

def answerTo (app : UInt16) (data : Bytes) : Completion :=
  ⟨app+6,app,.readHoldingRegisters,⟨.serial,1⟩,.success,data,7,1,⟨0,0⟩⟩

def overtaking : List Act :=
  [.traffic .ask,.traffic (.look 0),.traffic (.offer (answerTo 1 [0,5])),.traffic (.offer (answerTo 2 [0,6])),.look 0,
    .traffic (.signal 1),.traffic (.grant 0),.traffic (.take 0),.traffic (.remove 0),.traffic (.offer (answerTo 9 [0,7])),
    .publish 0,.traffic (.signal 3),.traffic .attempt,.look 0,.traffic (.remove 4),.look 1,.publish 0,.traffic (.again 0),
    .traffic .attempt]

theorem paths_agree_overtaking : ((handed overtaking).map (·.app)).Nodup ∧
    ∃ d, (opened twoOpen 1).run overtaking = some d ∧ Agrees twoOpen 1 overtaking d ∧ d.Rests ∧
      d.floor.queue.acquire? = none ∧ d.published.map (·.value) = ["0x0006","0x0005"] := by
  have apart : ((handed overtaking).map (·.app)).Nodup := by decide
  have ends : ((opened twoOpen 1).run overtaking).any (fun d => d.floor.calls.all (!·.owes) && d.hands.isEmpty &&
      d.floor.queue.acquire?.isNone && d.published.map (·.value) == ["0x0006","0x0005"]) = true := by decide +kernel
  obtain ⟨d,ran,ends⟩ := (Option.any_eq_true _ _).mp ends
  simp only [Bool.and_eq_true,List.all_eq_true,Bool.not_eq_true',List.isEmpty_iff,Option.isNone_iff_eq_none,beq_iff_eq] at ends
  obtain ⟨⟨⟨calls,hands⟩,drained⟩,values⟩ := ends
  exact ⟨apart,d,ran,paths_agree ran apart,⟨calls,hands⟩,drained,values⟩

end Desk
end ModbusMaster
