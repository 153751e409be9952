import ModbusMaster.Queue.Bounded
namespace ModbusMaster.Traffic

-- Producers and consumers of a bounded queue at once. Items and permits change in steps of their
-- own, in whatever order the calls come to them; what is counted are the calls in between.

inductive Call (α : Type) where
  -- pushes: with the permit to come, done, and handed back
  | appended (x : α)
  | pushed (x : α)
  | refused (x : α)
  -- pops: before the flag is looked at, asleep, given a permit but not awake, and with the permit used up
  | asking
  | waiting
  | granted
  | holding
  | got (x : α)
  | stopped
  | without
  deriving Repr

namespace Call
variable {α : Type}

def owes : Call α → Bool
  | appended _ => true
  | granted => true
  | holding => true
  | _ => false

def accepted? : Call α → Option α
  | appended x => some x
  | pushed x => some x
  | _ => none

end Call

-- A queue among its calls, in the order in which they came to it, and what was taken out of it.
-- The flag is raised by its owner; without the owner it counts as raised for those asleep.
structure Floor (α : Type) where
  queue : BoundedQueue α
  halted : Bool
  orphaned : Bool
  calls : List (Call α)
  removed : List α
  deriving Repr

inductive Act (α : Type) where
  | offer (x : α)
  | signal (i : Nat)
  | ask
  | look (i : Nat)
  | grant (i : Nat)
  | take (i : Nat)
  | leave (i : Nat)
  | remove (i : Nat)
  | again (i : Nat)
  | attempt
  | raise
  | orphan
  deriving Repr

namespace Floor
variable {α : Type} {f g : Floor α} {a : Act α} {acts : List (Act α)} {x : α} {i n : Nat} {c : Nat}

def opened (capacity : Nat) : Floor α := ⟨BoundedQueue.empty capacity,false,false,[],[]⟩

def join (f : Floor α) (u : Call α) : Floor α := {f with calls:=f.calls ++ [u]}

def put (f : Floor α) (i : Nat) (u : Call α) : Floor α := {f with calls:=f.calls.set i u}

def accepted (f : Floor α) : List α := f.calls.filterMap Call.accepted?

def perform (f : Floor α) : Act α → Option (Floor α)
  | .offer x => match f.queue.append? x with
    | some q => some {f.join (.appended x) with queue:=q}
    | none => some (f.join (.refused x))
  | .signal i => match f.calls[i]? with
    | some (.appended x) => some {f.put i (.pushed x) with queue:=f.queue.signal}
    | _ => none
  | .ask => some (f.join .asking)
  | .look i => match f.calls[i]? with
    | some .asking => some (f.put i (if f.halted then .stopped else .waiting))
    | _ => none
  | .grant i => match f.calls[i]?,f.queue.acquire? with
    | some .waiting,some q => some {f.put i .granted with queue:=q}
    | _,_ => none
  | .take i => match f.calls[i]? with
    | some .granted => some (f.put i .holding)
    | _ => none
  -- a permit that was not seen goes back
  | .leave i => if f.halted || f.orphaned then match f.calls[i]? with
      | some .waiting => some (f.put i .stopped)
      | some .granted => some {f.put i .stopped with queue:=f.queue.signal}
      | _ => none
    else none
  | .remove i => match f.calls[i]?,f.queue.removeFront with
    | some .holding,(some x,q) => some {f.put i (.got x) with queue:=q,removed:=f.removed ++ [x]}
    | some .holding,(none,q) => some {f.put i .stopped with queue:=q}
    | _,_ => none
  | .again i => match f.calls[i]? with
    | some (.got _) => some (f.put i .asking)
    | _ => none
  | .attempt => match f.queue.acquire? with
    | some q => some {f.join .holding with queue:=q}
    | none => some (f.join .without)
  | .raise => some {f with halted:=true}
  | .orphan => some {f with orphaned:=true}

def run : Floor α → List (Act α) → Option (Floor α)
  | f,[] => some f
  | f,a::acts => (f.perform a).bind (run · acts)

theorem run_push (f : Floor α) (x : α) : match f.queue.push? x with
    | some q => f.run [.offer x,.signal f.calls.length] = some {f.join (.pushed x) with queue:=q}
    | none => f.run [.offer x] = some (f.join (.refused x)) := by
  unfold BoundedQueue.push?
  cases taken : f.queue.append? x with
  | none => simp [run,perform,taken]
  | some q => simp [run,perform,taken,join,put]

theorem run_takeNow {q : BoundedQueue α} (took : f.queue.takeNow = (some x,q)) :
    f.run [.attempt,.remove f.calls.length] = some {f.join (.got x) with queue:=q,removed:=f.removed ++ [x]} := by
  unfold BoundedQueue.takeNow at took
  cases taken : f.queue.acquire? with
  | none =>
    rw [taken] at took
    cases took
  | some r =>
    rw [taken] at took
    have front : r.removeFront = (some x,q) := took
    simp [run,perform,taken,join,put,front]

theorem run_pop {q : BoundedQueue α} (popped : f.queue.pop f.halted = (.item x,q)) :
    f.run [.ask,.look f.calls.length,.grant f.calls.length,.take f.calls.length,.remove f.calls.length] =
      some {f.join (.got x) with queue:=q,removed:=f.removed ++ [x]} := by
  unfold BoundedQueue.pop at popped
  split at popped
  · cases popped
  · rename_i off
    split at popped
    · cases popped
    · rename_i r taken
      split at popped
      · rename_i front
        cases popped
        simp [run,perform,taken,join,put,front,off]
      · cases popped

inductive Alters (f : Floor α) : Act α → Floor α → Prop where
  | appends {x : α} (room : f.queue.items.length < f.queue.capacity) :
      Alters f (.offer x) {f.join (.appended x) with queue:={f.queue with items:=f.queue.items ++ [x]}}
  | joins {a : Act α} {u : Call α} (idle : u.owes = false) (plain : u.accepted? = none) (begun : u ≠ .stopped) :
      Alters f a (f.join u)
  | turns {a : Act α} {i : Nat} {t u : Call α} (was : f.calls[i]? = some t) (owes : u.owes = t.owes)
      (same : u.accepted? = t.accepted?) (stops : u = .stopped → f.halted = true ∨ f.orphaned = true) : Alters f a (f.put i u)
  | signals {a : Act α} {i : Nat} {t u : Call α} (was : f.calls[i]? = some t) (owed : t.owes = true) (paid : u.owes = false)
      (same : u.accepted? = t.accepted?) (stops : u = .stopped → f.halted = true ∨ f.orphaned = true) :
      Alters f a {f.put i u with queue:=f.queue.signal}
  | grants {i n : Nat} (was : f.calls[i]? = some .waiting) (some : f.queue.permits = n+1) :
      Alters f (.grant i) {f.put i .granted with queue:={f.queue with permits:=n}}
  | attempts {n : Nat} (some : f.queue.permits = n+1) :
      Alters f .attempt {f.join .holding with queue:={f.queue with permits:=n}}
  | removes {i : Nat} {x : α} {rest : List α} (was : f.calls[i]? = some .holding) (items : f.queue.items = x::rest) :
      Alters f (.remove i) {f.put i (.got x) with queue:={f.queue with items:=rest},removed:=f.removed ++ [x]}
  | misses {i : Nat} (was : f.calls[i]? = some .holding) (none : f.queue.items = []) : Alters f (.remove i) (f.put i .stopped)
  | raises : Alters f .raise {f with halted:=true}
  | orphans : Alters f .orphan {f with orphaned:=true}

theorem acquire?_some {q r : BoundedQueue α} (taken : q.acquire? = some r) : ∃ n, q.permits = n+1 ∧ r = {q with permits:=n} := by
  unfold BoundedQueue.acquire? at taken
  split at taken
  · cases taken
  · rename_i n some
    cases taken
    exact ⟨n,some,rfl⟩

theorem alters (performed : f.perform a = some g) : Alters f a g := by
  cases a with
  | offer x =>
    simp only [perform,BoundedQueue.append?] at performed
    split at performed
    · rename_i q taken
      split at taken
      · cases taken
      · rename_i room
        cases taken
        cases performed
        exact .appends (Nat.not_le.mp room)
    · cases performed
      exact .joins rfl rfl nofun
  | signal i =>
    simp only [perform] at performed
    split at performed
    · rename_i x was
      cases performed
      exact .signals was rfl rfl rfl nofun
    · cases performed
  | ask =>
    cases performed
    exact .joins rfl rfl nofun
  | look i =>
    simp only [perform] at performed
    split at performed
    · rename_i was
      cases performed
      by_cases halted : f.halted = true
      · rw [if_pos halted]
        exact .turns was rfl rfl fun _ => .inl halted
      · rw [if_neg halted]
        exact .turns was rfl rfl nofun
    · cases performed
  | grant i =>
    simp only [perform] at performed
    split at performed
    · rename_i q was taken
      obtain ⟨n,some,rfl⟩ := acquire?_some taken
      cases performed
      exact .grants was some
    · cases performed
  | take i =>
    simp only [perform] at performed
    split at performed
    · rename_i was
      cases performed
      exact .turns was rfl rfl nofun
    · cases performed
  | leave i =>
    simp only [perform] at performed
    split at performed
    · rename_i off
      have off : f.halted = true ∨ f.orphaned = true := by simpa using off
      split at performed
      · rename_i was
        cases performed
        exact .turns was rfl rfl fun _ => off
      · rename_i was
        cases performed
        exact .signals was rfl rfl rfl fun _ => off
      · cases performed
    · cases performed
  | remove i =>
    simp only [perform,BoundedQueue.removeFront] at performed
    split at performed
    · rename_i x q was front
      split at front
      · cases front
      · rename_i items
        cases front
        cases performed
        exact .removes was items
    · rename_i q was front
      split at front
      · rename_i none
        cases front
        cases performed
        exact .misses was none
      · cases front
    · cases performed
  | again i =>
    simp only [perform] at performed
    split at performed
    · rename_i was
      cases performed
      exact .turns was rfl rfl nofun
    · cases performed
  | attempt =>
    simp only [perform] at performed
    split at performed
    · rename_i q taken
      obtain ⟨n,some,rfl⟩ := acquire?_some taken
      cases performed
      exact .attempts some
    · cases performed
      exact .joins rfl rfl nofun
  | raise =>
    cases performed
    exact .raises
  | orphan =>
    cases performed
    exact .orphans

theorem countP_put {t : Call α} (was : f.calls[i]? = some t) (u : Call α) (p : Call α → Bool) :
    (f.put i u).calls.countP p+(p t).toNat = f.calls.countP p+(p u).toNat := by
  obtain ⟨below,rfl⟩ := List.getElem?_eq_some_iff.mp was
  have counted := List.countP_set (p:=p) (a:=u) below
  have among : p f.calls[i] = true → 0 < f.calls.countP p := fun holds =>
    List.countP_pos_iff.mpr ⟨_,List.getElem_mem below,holds⟩
  show (f.calls.set i u).countP p+(p f.calls[i]).toNat = f.calls.countP p+(p u).toNat
  rw [counted]
  cases told : p f.calls[i] <;> cases p u <;> simp_all

theorem accepted_put {t u : Call α} (was : f.calls[i]? = some t) (same : u.accepted? = t.accepted?) :
    (f.put i u).accepted = f.accepted := by
  obtain ⟨below,rfl⟩ := List.getElem?_eq_some_iff.mp was
  have parts : f.calls.take i ++ f.calls[i]::f.calls.drop (i+1) = f.calls := by
    rw [List.getElem_cons_drop below,List.take_append_drop]
  show (f.calls.set i u).filterMap Call.accepted? = f.calls.filterMap Call.accepted?
  rw [List.set_eq_take_append_cons_drop,if_pos below,← congrArg (List.filterMap Call.accepted?) parts]
  simp only [List.filterMap_append,List.filterMap_cons,same]

theorem accepted_join (f : Floor α) (u : Call α) : (f.join u).accepted = f.accepted ++ u.accepted?.toList := by
  show (f.calls ++ [u]).filterMap Call.accepted? = _
  rw [List.filterMap_append]
  cases told : u.accepted? <;> simp [accepted,told]

theorem countP_join (f : Floor α) (u : Call α) (p : Call α → Bool) : (f.join u).calls.countP p = f.calls.countP p+(p u).toNat := by
  show (f.calls ++ [u]).countP p = _
  rw [List.countP_append,List.countP_singleton]
  cases p u <;> rfl

structure Steady (capacity : Nat) (f : Floor α) : Prop where
  -- every item has its permit, with the queue or with a call
  counted : f.queue.items.length = f.queue.permits+f.calls.countP Call.owes
  order : f.accepted = f.removed ++ f.queue.items
  most : f.queue.items.length ≤ capacity
  capacity : f.queue.capacity = capacity
  stops : Call.stopped ∈ f.calls → f.halted = true ∨ f.orphaned = true

theorem opened_steady (c : Nat) : Steady (max c 1) (opened c : Floor α) :=
  ⟨rfl,rfl,Nat.zero_le _,rfl,fun member => nomatch member⟩

theorem Steady.filled (steady : Steady c f) (was : f.calls[i]? = some .holding) : ∃ x rest, f.queue.items = x::rest := by
  have owed : 0 < f.calls.countP Call.owes := List.countP_pos_iff.mpr ⟨_,List.mem_of_getElem? was,rfl⟩
  have counted := steady.counted
  exact List.exists_cons_of_length_pos (by omega)

theorem Steady.stops_put {u : Call α} (steady : Steady c f) (stops : u = .stopped → f.halted = true ∨ f.orphaned = true)
    (member : Call.stopped ∈ (f.put i u).calls) : f.halted = true ∨ f.orphaned = true := by
  rcases List.mem_or_eq_of_mem_set member with earlier | rfl
  · exact steady.stops earlier
  · exact stops rfl

theorem Steady.stops_join {u : Call α} (steady : Steady c f) (begun : u ≠ .stopped)
    (member : Call.stopped ∈ (f.join u).calls) : f.halted = true ∨ f.orphaned = true := by
  rcases List.mem_append.mp member with earlier | last
  · exact steady.stops earlier
  · exact absurd (List.mem_singleton.mp last).symm begun

theorem Steady.altered (steady : Steady c f) (alters : Alters f a g) : Steady c g := by
  have counted := steady.counted
  have capacity := steady.capacity
  cases alters with
  | @appends x room =>
    have calls : (f.join (.appended x)).calls.countP Call.owes = f.calls.countP Call.owes+1 := countP_join f _ _
    have length : (f.queue.items ++ [x]).length = f.queue.items.length+1 := List.length_append
    refine ⟨?_,?_,?_,capacity,steady.stops_join nofun⟩
    · show (f.queue.items ++ [x]).length = f.queue.permits+(f.join (.appended x)).calls.countP Call.owes
      omega
    · show (f.join (.appended x)).accepted = f.removed ++ (f.queue.items ++ [x])
      rw [accepted_join,steady.order,List.append_assoc]
      rfl
    · show (f.queue.items ++ [x]).length ≤ c
      omega
  | joins idle plain begun =>
    refine ⟨?_,?_,steady.most,capacity,steady.stops_join begun⟩
    · rw [countP_join,idle]
      exact counted
    · rw [accepted_join,plain,Option.toList_none,List.append_nil]
      exact steady.order
  | @turns _ i t u was owes same off =>
    have calls := countP_put was u Call.owes
    rw [owes] at calls
    refine ⟨counted.trans ?_,?_,steady.most,capacity,steady.stops_put off⟩
    · exact congrArg (f.queue.permits+·) (Nat.add_right_cancel calls).symm
    · rw [accepted_put was same]
      exact steady.order
  | @signals _ i t u was owed paid same off =>
    have calls := countP_put was u Call.owes
    rw [owed,paid] at calls
    refine ⟨?_,(accepted_put was same).trans steady.order,steady.most,capacity,steady.stops_put off⟩
    show f.queue.items.length = f.queue.permits+1+(f.put i u).calls.countP Call.owes
    simp only [Bool.toNat_true,Bool.toNat_false] at calls
    omega
  | @grants i n was some =>
    have calls := countP_put was .granted Call.owes
    refine ⟨?_,(accepted_put (u:=.granted) was rfl).trans steady.order,steady.most,capacity,steady.stops_put nofun⟩
    show f.queue.items.length = n+(f.put i .granted).calls.countP Call.owes
    simp only [Call.owes,Bool.toNat_true,Bool.toNat_false] at calls
    omega
  | @attempts n some =>
    have calls : (f.join .holding).calls.countP Call.owes = f.calls.countP Call.owes+1 := countP_join f _ _
    refine ⟨?_,?_,steady.most,capacity,steady.stops_join nofun⟩
    · show f.queue.items.length = n+(f.join .holding).calls.countP Call.owes
      omega
    · exact (accepted_join f .holding).trans ((List.append_nil _).trans steady.order)
  | @removes i x rest was items =>
    have calls := countP_put was (.got x) Call.owes
    have length := congrArg List.length items
    have most := steady.most
    simp only [Call.owes,Bool.toNat_true,Bool.toNat_false,List.length_cons] at calls length
    refine ⟨?_,?_,?_,capacity,steady.stops_put nofun⟩
    · show rest.length = f.queue.permits+(f.put i (.got x)).calls.countP Call.owes
      omega
    · show (f.put i (.got x)).accepted = (f.removed ++ [x]) ++ rest
      rw [accepted_put (u:=.got x) was rfl,steady.order,items,List.append_assoc]
      rfl
    · show rest.length ≤ c
      omega
  | misses was none =>
    obtain ⟨x,rest,items⟩ := steady.filled was
    cases none.symm.trans items
  | raises => exact ⟨counted,steady.order,steady.most,capacity,fun _ => .inl rfl⟩
  | orphans => exact ⟨counted,steady.order,steady.most,capacity,fun _ => .inr rfl⟩

theorem Steady.performed (steady : Steady c f) (performed : f.perform a = some g) : Steady c g := steady.altered (alters performed)

theorem run_cons (ran : f.run (a::acts) = some g) : ∃ h, f.perform a = some h ∧ h.run acts = some g := Option.bind_eq_some_iff.mp ran

theorem Steady.ran (steady : Steady c f) (ran : f.run acts = some g) : Steady c g := by
  induction acts generalizing f with
  | nil =>
    cases ran
    exact steady
  | cons a acts ih =>
    obtain ⟨h,performed,rest⟩ := run_cons ran
    exact ih (steady.performed performed) rest

-- What a single kind of step brings about was there before a run, or that step is in the run.
theorem run_brings {p : Floor α → Bool} {b : Act α} (alone : ∀ f a g, Alters f a g → p g = true → p f = true ∨ a = b)
    (ran : f.run acts = some g) (holds : p g = true) : p f = true ∨ b ∈ acts := by
  induction acts generalizing f with
  | nil =>
    cases ran
    exact .inl holds
  | cons a acts ih =>
    obtain ⟨h,performed,rest⟩ := run_cons ran
    rcases ih rest with earlier | later
    · rcases alone _ _ _ (alters performed) earlier with before | rfl
      · exact .inl before
      · exact .inr List.mem_cons_self
    · exact .inr (List.mem_cons_of_mem _ later)

theorem Alters.halted (alters : Alters f a g) (halted : g.halted = true) : f.halted = true ∨ a = .raise := by
  cases alters with
  | raises => exact .inr rfl
  | _ => exact .inl halted

theorem Alters.orphaned (alters : Alters f a g) (orphaned : g.orphaned = true) : f.orphaned = true ∨ a = .orphan := by
  cases alters with
  | orphans => exact .inr rfl
  | _ => exact .inl orphaned

structure Orderly (c : Nat) (acts : List (Act α)) (g : Floor α) : Prop where
  -- a permit that was used up is good for the oldest item
  found : ∀ i, g.calls[i]? = some .holding → ∃ x h, g.perform (.remove i) = some h ∧ h.calls[i]? = some (.got x) ∧
    h.removed = g.removed ++ [x] ∧ g.accepted[g.removed.length]? = some x
  -- a pop without an item, which ends its worker, has seen the flag or that it has no owner
  stops : .stopped ∈ g.calls → .raise ∈ acts ∨ .orphan ∈ acts
  order : g.accepted = g.removed ++ g.queue.items
  most : g.queue.items.length ≤ max c 1
  offered : ∀ x, g.queue.items.length < max c 1 ∧
      g.perform (.offer x) = some {g.join (.appended x) with queue:={g.queue with items:=g.queue.items ++ [x]}} ∨
    g.queue.items.length = max c 1 ∧ g.perform (.offer x) = some (g.join (.refused x))
  counted : g.queue.items.length = g.queue.permits+g.calls.countP Call.owes

theorem Steady.found (steady : Steady c g) (was : g.calls[i]? = some .holding) :
    ∃ x h, g.perform (.remove i) = some h ∧ h.calls[i]? = some (.got x) ∧ h.removed = g.removed ++ [x] ∧
      g.accepted[g.removed.length]? = some x := by
  obtain ⟨x,rest,items⟩ := steady.filled was
  obtain ⟨below,_⟩ := List.getElem?_eq_some_iff.mp was
  refine ⟨x,{g.put i (.got x) with queue:={g.queue with items:=rest},removed:=g.removed ++ [x]},?_,?_,rfl,?_⟩
  · simp only [perform,was,BoundedQueue.removeFront,items]
  · exact List.getElem?_set_self below
  · rw [steady.order,items,List.getElem?_append_right (Nat.le_refl _),Nat.sub_self]
    rfl

theorem Steady.offered (steady : Steady c g) (x : α) : g.queue.items.length < c ∧
      g.perform (.offer x) = some {g.join (.appended x) with queue:={g.queue with items:=g.queue.items ++ [x]}} ∨
    g.queue.items.length = c ∧ g.perform (.offer x) = some (g.join (.refused x)) := by
  rcases Nat.lt_or_eq_of_le steady.most with room | full
  · refine .inl ⟨room,?_⟩
    rw [← steady.capacity] at room
    simp only [perform,BoundedQueue.append?,if_neg (Nat.not_le.mpr room)]
  · refine .inr ⟨full,?_⟩
    have full : g.queue.capacity ≤ g.queue.items.length := Nat.le_of_eq (steady.capacity.trans full.symm)
    simp only [perform,BoundedQueue.append?,if_pos full]

theorem traffic_is_orderly (ran : (opened c).run acts = some g) : Orderly c acts g := by
  have steady := (opened_steady c).ran ran
  refine ⟨fun i => steady.found,?_,steady.order,steady.most,steady.offered,steady.counted⟩
  intro member
  rcases steady.stops member with halted | orphaned
  · have raised := run_brings (p:=Floor.halted) (fun _ _ _ alters => alters.halted) ran halted
    exact .inl (raised.resolve_left nofun)
  · have gone := run_brings (p:=Floor.orphaned) (fun _ _ _ alters => alters.orphaned) ran orphaned
    exact .inr (gone.resolve_left nofun)

-- One place, two pushes, a worker that is asleep and one who does not wait: the worker has been given
-- the permit when the flag is raised, and ends only when it comes back for more.
def crowd : List (Act Nat) := [.ask,.look 0,.offer 7,.offer 8,.attempt,.signal 1,.grant 0,.raise,.take 0,.remove 0,.again 0,.look 0]

theorem traffic_is_orderly_crowd : ∃ g : Floor Nat, (opened 1).run crowd = some g ∧ Orderly 1 crowd g ∧ g.removed = [7] := by
  have ran : (opened 1).run crowd = some ⟨⟨[],0,1⟩,true,false,[.stopped,.pushed 7,.refused 8,.without],[7]⟩ := rfl
  exact ⟨_,ran,traffic_is_orderly ran,rfl⟩

end Floor
end ModbusMaster.Traffic
