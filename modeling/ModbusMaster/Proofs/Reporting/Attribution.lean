import ModbusMaster.Proofs.Stack.Effects
namespace ModbusMaster

-- A reference id ties a request for a point to the response that answers it. Ids are used
-- again, so everything is said of the requests of one id in their order: for each there is
-- one answer, and until then it is open, held by the stack or waiting to be processed.

def ofPoint (app : UInt16) (t : Ticket) : Bool := t.handler == .points && t.app == app

def issuedAs (app : UInt16) (h : List Happening) : List (OpenRequest × Ticket) := (issued h).filter (·.2.app == app)
def answeredAs (app : UInt16) (h : List Happening) : List (OpenRequest × Completion) := (answered h).filter (·.2.app == app)

def tidings (app : UInt16) (h : List Happening) : List Completion :=
  ((told h).filter fun x => x.2 == .points && x.1.app == app).map (·.1)

section
variable (app : UInt16) (g h : List Happening)
@[simp] theorem issuedAs_append : issuedAs app (g ++ h) = issuedAs app g ++ issuedAs app h := by simp [issuedAs]
@[simp] theorem answeredAs_append : answeredAs app (g ++ h) = answeredAs app g ++ answeredAs app h := by simp [answeredAs]
@[simp] theorem tidings_append : tidings app (g ++ h) = tidings app g ++ tidings app h := by simp [tidings]
end

section
variable (app : UInt16) (r : OpenRequest) (t : Ticket) (c : Completion) (k : Handler) (live : Bool)

@[simp] theorem accepted_adds : accepted [.accepted t] = [t] ∧ toldTickets [.accepted t] = [] := ⟨rfl,rfl⟩
@[simp] theorem issued_adds : accepted [.issued r t] = [t] ∧ toldTickets [.issued r t] = [] := ⟨rfl,rfl⟩
@[simp] theorem told_adds : accepted [.told c k live] = [] ∧ toldTickets [.told c k live] = [c.ticket k] := ⟨rfl,rfl⟩
@[simp] theorem answered_adds : accepted [.answered r c] = [] ∧ toldTickets [.answered r c] = [] := ⟨rfl,rfl⟩

@[simp] theorem accepted_addsAs : issuedAs app [.accepted t] = [] ∧ tidings app [.accepted t] = [] ∧
    answeredAs app [.accepted t] = [] := ⟨rfl,rfl,rfl⟩
@[simp] theorem issued_addsAs : tidings app [.issued r t] = [] ∧ answeredAs app [.issued r t] = [] := ⟨rfl,rfl⟩
@[simp] theorem told_addsAs : issuedAs app [.told c k live] = [] ∧ answeredAs app [.told c k live] = [] := ⟨rfl,rfl⟩
@[simp] theorem answered_addsAs : issuedAs app [.answered r c] = [] ∧ tidings app [.answered r c] = [] := ⟨rfl,rfl⟩

@[simp] theorem issuedAs_issued : issuedAs app [.issued r t] = if t.app = app then [(r,t)] else [] := by
  by_cases here : t.app = app <;> simp [issuedAs,issued,Happening.issue?,here]

@[simp] theorem answeredAs_answered : answeredAs app [.answered r c] = if c.app = app then [(r,c)] else [] := by
  by_cases here : c.app = app <;> simp [answeredAs,answered,Happening.answer?,here]

@[simp] theorem tidings_told : tidings app [.told c k live] = if k = .points then [c].filter (·.app == app) else [] := by
  by_cases points : k = .points <;> by_cases here : c.app = app <;> simp [tidings,told,Happening.ending?,points,here]
end

theorem toldTickets_ofPoint (app : UInt16) (h : List Happening) :
    (toldTickets h).filter (ofPoint app) = (tidings app h).map (·.ticket .points) := by
  rw [toldTickets,tidings,List.filter_map,List.map_map]
  apply List.map_congr_left
  intro x member
  have points := (List.mem_filter.mp member).2
  simp only [Function.comp,ofPoint,Completion.ticket,Bool.and_eq_true,beq_iff_eq] at points
  simp [Function.comp,points.1]

structure Attributed (inside : List Ticket) (p : Reporter) (h : List Happening) : Prop where
  refs : ∀ app, Balanced (ofPoint app) (accepted h) (toldTickets h) inside
  issued : ∀ app, (accepted h).filter (ofPoint app) = (issuedAs app h).map (·.2)
  unanswered : ∀ app, (issuedAs app h).map (·.1) = (answeredAs app h).map (·.1) ++ (p.pending.requests[app]?).toList
  waiting : ∀ app, tidings app h = (answeredAs app h).map (·.2) ++ p.queue.items.filter (·.app == app)

variable {inside rest : List Ticket} {p q : Reporter} {h : List Happening} {app : UInt16} {r : OpenRequest} {c : Completion}

theorem attributed_empty (capacity : Nat) : Attributed [] (Reporter.empty capacity) [] :=
  ⟨fun _ => balanced_nil _,fun _ => rfl,
    fun _ => by simp [Reporter.empty,OpenRequests.empty,issuedAs,answeredAs,ModbusMaster.issued,answered],fun _ => rfl⟩

theorem Attributed.congr (attributed : Attributed inside p h) (perm : inside.Perm rest)
    (pending : ∀ app : UInt16, q.pending.requests[app]? = p.pending.requests[app]?) (items : q.queue.items = p.queue.items) :
    Attributed rest q h := by
  refine ⟨?_,attributed.issued,?_,?_⟩
  · intro app
    have left : Balanced (ofPoint app) (accepted h) (toldTickets h ++ []) rest := balanced_leave (attributed.refs app) perm
    simpa using left
  · intro app
    rw [pending]
    exact attributed.unanswered app
  · intro app
    rw [items]
    exact attributed.waiting app

-- An open request has its ticket in the stack or its response waiting, and only one of them.
theorem Attributed.count (attributed : Attributed inside p h) (app : UInt16) :
    (p.pending.requests[app]?).toList.length =
      (p.queue.items.filter (·.app == app)).length+(inside.filter (ofPoint app)).length := by
  have balance := congrArg List.length (attributed.refs app).account
  have issued := congrArg List.length (attributed.issued app)
  have unanswered := congrArg List.length (attributed.unanswered app)
  have waiting := congrArg List.length (attributed.waiting app)
  rw [toldTickets_ofPoint] at balance
  simp only [List.length_append,List.length_map] at balance issued unanswered waiting
  omega

theorem Attributed.finds (attributed : Attributed inside p h) (app : UInt16)
    (waits : p.queue.items.filter (·.app == app) ≠ []) : ∃ r, p.pending.requests[app]? = some r := by
  have count := attributed.count app
  have some := List.length_pos_iff.mpr waits
  cases here : p.pending.requests[app]? with
  | none =>
    rw [here,Option.toList_none,List.length_nil] at count
    omega
  | some r => exact ⟨r,rfl⟩

theorem Attributed.issue (attributed : Attributed inside p h) {t : Ticket} (perm : rest.Perm (t::inside))
    (points : t.handler = .points) (fresh : p.pending.requests[t.app]? = none)
    (opened : ∀ app : UInt16, q.pending.requests[app]? = if t.app = app then some r else p.pending.requests[app]?)
    (items : q.queue.items = p.queue.items) : Attributed rest q (h ++ [.issued r t]) := by
  refine ⟨?_,?_,?_,?_⟩
  · intro app
    rw [accepted_append,toldTickets_append,(issued_adds r t).1,(issued_adds r t).2,List.append_nil]
    refine balanced_enter (attributed.refs app) perm ?_
    intro marked
    have here : t.app = app := by simpa [ofPoint,points] using marked
    have count := attributed.count t.app
    rw [fresh,Option.toList_none,List.length_nil,here] at count
    exact List.eq_nil_of_length_eq_zero (by omega)
  · intro app
    have marked : ofPoint app t = (t.app == app) := by simp [ofPoint,points]
    by_cases here : t.app = app <;> simp [attributed.issued,marked,here]
  · intro app
    by_cases here : t.app = app
    · subst here
      simp [attributed.unanswered,opened,fresh]
    · simp [attributed.unanswered,opened,here]
  · intro app
    simpa [items] using attributed.waiting app

theorem Attributed.accept (attributed : Attributed inside p h) {t : Ticket} (perm : rest.Perm (t::inside))
    (other : t.handler ≠ .points) : Attributed rest p (h ++ [.accepted t]) := by
  have unmarked (app : UInt16) : ofPoint app t = false := by simp [ofPoint,other]
  refine ⟨?_,?_,?_,?_⟩
  · intro app
    rw [accepted_append,toldTickets_append,(accepted_adds t).1,(accepted_adds t).2,List.append_nil]
    exact balanced_enter (attributed.refs app) perm fun marked => by simp [unmarked] at marked
  · intro app
    simpa [unmarked] using attributed.issued app
  · intro app
    simpa using attributed.unanswered app
  · intro app
    simpa using attributed.waiting app

theorem Attributed.tellCaller (attributed : Attributed inside p h) {live : Bool}
    (perm : inside.Perm (c.ticket .caller::rest)) : Attributed rest p (h ++ [.told c .caller live]) := by
  refine ⟨?_,?_,?_,?_⟩
  · intro app
    rw [accepted_append,toldTickets_append,(told_adds c .caller live).1,(told_adds c .caller live).2,List.append_nil]
    exact balanced_leave (attributed.refs app) perm
  · intro app
    simpa using attributed.issued app
  · intro app
    simpa using attributed.unanswered app
  · intro app
    simpa using attributed.waiting app

theorem Attributed.tellPoints (attributed : Attributed inside p h) {live : Bool}
    (perm : inside.Perm (c.ticket .points::rest)) (pending : q.pending = p.pending)
    (items : q.queue.items = p.queue.items ++ [c]) : Attributed rest q (h ++ [.told c .points live]) := by
  refine ⟨?_,?_,?_,?_⟩
  · intro app
    rw [accepted_append,toldTickets_append,(told_adds c .points live).1,(told_adds c .points live).2,List.append_nil]
    exact balanced_leave (attributed.refs app) perm
  · intro app
    simpa using attributed.issued app
  · intro app
    simpa [pending] using attributed.unanswered app
  · intro app
    simp [attributed.waiting,items]

theorem Attributed.answer (attributed : Attributed inside p h)
    (first : ∀ app, p.queue.items.filter (·.app == app) = [c].filter (·.app == app) ++ q.queue.items.filter (·.app == app))
    (pending : q.pending = p.pending) : Attributed inside (q.process c).2 (h ++ q.answers c) := by
  obtain ⟨r,here⟩ := attributed.finds c.app (by simp [first c.app])
  obtain ⟨left,taken⟩ := OpenRequests.take?_open here
  have answers : q.answers c = [.answered r c] := by simp [Reporter.answers,pending,taken]
  have processed : (q.process c).2 = {q with pending:=left} := by simp [Reporter.process,pending,taken]
  rw [answers,processed]
  refine ⟨?_,?_,?_,?_⟩
  · intro app
    simpa using attributed.refs app
  · intro app
    simpa using attributed.issued app
  · intro app
    have unanswered := attributed.unanswered app
    by_cases same : c.app = app
    · subst same
      simpa [here,OpenRequests.take?_get? taken] using unanswered
    · simpa [same,OpenRequests.take?_get? taken] using unanswered
  · intro app
    have waiting := attributed.waiting app
    rw [first] at waiting
    by_cases same : c.app = app <;> simpa [same] using waiting

theorem Attributed.aside (attributed : Attributed inside p h) {x : Happening}
    (quiet : x.ticket? = none ∧ x.issue? = none ∧ x.ending? = none ∧ x.answer? = none) : Attributed inside p (h ++ [x]) := by
  obtain ⟨ticket,issue,ending,answer⟩ := quiet
  have tickets : accepted [x] = [] ∧ toldTickets [x] = [] := by simp [accepted,toldTickets,told,ticket,ending]
  have others (app : UInt16) : issuedAs app [x] = [] ∧ tidings app [x] = [] ∧ answeredAs app [x] = [] := by
    simp [issuedAs,ModbusMaster.issued,tidings,told,answeredAs,answered,issue,ending,answer]
  refine ⟨?_,?_,?_,?_⟩
  · intro app
    simpa [tickets] using attributed.refs app
  · intro app
    simpa [tickets,others] using attributed.issued app
  · intro app
    simpa [others] using attributed.unanswered app
  · intro app
    simpa [others] using attributed.waiting app

theorem takeNow_items {q r : BoundedQueue Completion} {first : Option Completion} (taken : q.takeNow = (first,r)) :
    q.items = first.toList ++ r.items := by
  unfold BoundedQueue.takeNow BoundedQueue.acquire? at taken
  cases permits : q.permits with
  | zero =>
    simp only [permits,Prod.mk.injEq] at taken
    obtain ⟨rfl,rfl⟩ := taken
    rfl
  | succ n =>
    simp only [permits,BoundedQueue.removeFront] at taken
    split at taken
    · cases taken
      rfl
    · rename_i items
      cases taken
      exact items

theorem Attributed.drain (attributed : Attributed inside p h) (n : Nat) :
    Attributed inside (Reporter.drainUpTo n p).2.2 (h ++ Reporter.drainedUpTo n p) := by
  induction n generalizing p h with
  | zero => simpa [Reporter.drainUpTo,Reporter.drainedUpTo] using attributed
  | succ n ih =>
    unfold Reporter.drainUpTo Reporter.drainedUpTo
    cases taken : p.queue.takeNow with
    | mk first q =>
      have items := takeNow_items taken
      cases first with
      | none =>
        rw [List.append_nil]
        exact attributed.congr (List.Perm.refl _) (fun _ => rfl) items.symm
      | some c =>
        have front (app : UInt16) : p.queue.items.filter (·.app == app) =
            [c].filter (·.app == app) ++ q.items.filter (·.app == app) := by
          rw [items]
          exact List.filter_append _ _
        have answered := attributed.answer (c:=c) (q:={p with queue:=q}) front rfl
        simpa [List.append_assoc] using ih answered

-- Once nothing is held and nothing waits, the requests of each reference and their answers
-- are the same in number and order, and each was answered by what its own request came to.
theorem Attributed.complete (attributed : Attributed [] p h) (empty : p.queue.items = []) (app : UInt16) :
    issuedAs app h = (answeredAs app h).map (fun x => (x.1,x.2.ticket .points)) ∧
      tidings app h = (answeredAs app h).map (·.2) ∧ p.pending.requests[app]? = none := by
  have count := attributed.count app
  rw [empty] at count
  have closed : p.pending.requests[app]? = none := by
    cases here : p.pending.requests[app]? with
    | none => rfl
    | some r => simp [here] at count
  have waiting := attributed.waiting app
  rw [empty,List.filter_nil,List.append_nil] at waiting
  have requests := attributed.unanswered app
  rw [closed,Option.toList_none,List.append_nil] at requests
  have tickets := attributed.issued app
  rw [(attributed.refs app).account,List.filter_nil,List.append_nil,toldTickets_ofPoint,waiting,List.map_map] at tickets
  refine ⟨?_,waiting,closed⟩
  rw [List.zip_of_prod requests tickets.symm]
  exact List.zip_map'

end ModbusMaster
