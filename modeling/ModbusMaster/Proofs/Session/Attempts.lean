import ModbusMaster.Proofs.Session.Chronicle
namespace ModbusMaster

-- The sendings of one request: how many there have been and are left, what each of them
-- carried, and in what way they came to nothing or brought an end.

namespace Watch
variable {p : Post} {w : Watch} {x : Attempt} {e : Entry} {ready deadline : Nat} {r : Session × List SessionEvent}

structure Lapses (p : Post) (now : Nat) (x : Attempt) (xs : List Sending) : Prop where
  count : xs.length+x.left = p.timing.maxRetries
  each : ∀ y ∈ xs, y.frame = x.entry.frame ∧ y.Lapsed p x.entry ∧ y.time+p.timing.responseUs ≤ now

-- The answer to the last sending is awaited; what has been read since was not it.
structure Waits (p : Post) (w : Watch) (x : Attempt) (deadline : Nat) (before : List Sending) (y : Sending)
    (read : List (Nat × Except Fault Bytes)) : Prop where
  line : w.session.line ≠ none
  sendings : w.sendings = before ++ [y]
  lapses : Lapses p w.now x before
  frame : y.frame = x.entry.frame
  taken : y.taken = true
  unclosed : y.closed = none
  window : deadline = y.time+p.timing.responseUs
  inbox : y.inbox = read ++ w.session.inbox
  strays : ∀ a ∈ read, a.1 ≤ w.now ∧ Session.Stray p.format x.entry a.2

inductive Stage (p : Post) (w : Watch) : Prop where
  | between (early : ∀ x ready, w.session.phase ≠ .pausing x ready)
    (early' : ∀ x deadline, w.session.phase ≠ .awaiting x deadline)
    (unsent : w.sendings = [])
  | pausing (x : Attempt) (ready : Nat) (phase : w.session.phase = .pausing x ready) (line : w.session.line ≠ none)
    (lapses : Lapses p w.now x w.sendings)
  | awaiting (x : Attempt) (deadline : Nat) (before : List Sending) (y : Sending)
    (read : List (Nat × Except Fault Bytes))
    (phase : w.session.phase = .awaiting x deadline) (waits : Waits p w x deadline before y read)

theorem close_lapsed {y : Sending} (lapsed : y.Lapsed p e) : y.close w.now = y := by
  obtain ⟨_,closed,_,_,done,_⟩ := lapsed
  obtain ⟨_,_,_,_,_⟩ := y
  cases done
  rfl

theorem Lapses.close {xs : List Sending} (lapses : Lapses p ready x xs) : xs.map (·.close w.now) = xs := by
  calc xs.map (·.close w.now) = xs.map id := List.map_congr_left fun y member => close_lapsed (lapses.each y member).2.1
    _ = xs := List.map_id xs

theorem Lapses.later {xs : List Sending} {now t : Nat} (lapses : Lapses p now x xs) (later : now ≤ t) :
    Lapses p t x xs :=
  ⟨lapses.count,fun y member => ⟨(lapses.each y member).1,(lapses.each y member).2.1,
    Nat.le_trans (lapses.each y member).2.2 later⟩⟩

theorem Stage.unsent (stage : Stage p w) (early : ∀ x ready, w.session.phase ≠ .pausing x ready)
    (early' : ∀ x deadline, w.session.phase ≠ .awaiting x deadline) : w.sendings = [] := by
  cases stage with
  | between _ _ unsent => exact unsent
  | pausing _ _ phase => exact absurd phase (early _ _)
  | awaiting _ _ _ _ _ phase => exact absurd phase (early' _ _)

theorem Stage.idle (stage : Stage p w) (idle : w.session.current? = none) : w.sendings = [] := by
  refine stage.unsent (fun x ready phase => ?_) fun x deadline phase => ?_
  · simp [Session.current?,phase] at idle
  · simp [Session.current?,phase] at idle

theorem Stage.paused (stage : Stage p w) (phase : w.session.phase = .pausing x ready) :
    w.session.line ≠ none ∧ Lapses p w.now x w.sendings := by
  cases stage with
  | between early => exact absurd phase (early _ _)
  | pausing _ _ same line lapses =>
    cases phase.symm.trans same
    exact ⟨line,lapses⟩
  | awaiting _ _ _ _ _ other => cases phase.symm.trans other

theorem Stage.awaited (stage : Stage p w) (phase : w.session.phase = .awaiting x deadline) :
    ∃ before y read, Waits p w x deadline before y read := by
  cases stage with
  | between _ early => exact absurd phase (early _ _)
  | pausing _ _ other => cases phase.symm.trans other
  | awaiting _ _ before y read same waits =>
    cases phase.symm.trans same
    exact ⟨before,y,read,waits⟩

theorem overheard_open (still : closes w.session r.1 = false) :
    w.overheard r = w.sendings ++ r.2.filterMap (Sending.ofEvent? w.now r.1.inbox) := by
  unfold overheard
  rw [still]
  rfl

theorem overheard_closed (stage : Stage p w) (phase : w.session.phase = .awaiting x deadline)
    (shut : closes w.session r.1 = true)
    (silent : r.2.filterMap (Sending.ofEvent? w.now r.1.inbox) = []) :
    ∃ before y read, Waits p w x deadline before y read ∧ w.overheard r = before ++ [{y with closed:=some w.now}] := by
  obtain ⟨before,y,read,waits⟩ := stage.awaited phase
  refine ⟨before,y,read,waits,?_⟩
  unfold overheard
  rw [shut,silent,waits.sendings,if_pos rfl,List.append_nil,List.map_append,waits.lapses.close]
  simp [Sending.close,waits.unclosed]

theorem Waits.lapsed {before : List Sending} {y : Sending} {read : List (Nat × Except Fault Bytes)}
    (waits : Waits p w x deadline before y read) (silent : w.session.Silent w.now)
    (due : deadline ≤ w.now ∨ w.session.line = none) : Sending.Lapsed p x.entry {y with closed:=some w.now} := by
  have due := waits.window ▸ due.resolve_right waits.line
  refine ⟨waits.taken,w.now,read,w.session.inbox,rfl,due,waits.inbox,waits.strays,fun a first => ?_⟩
  obtain ⟨rest,arrived⟩ := List.head?_eq_some_iff.mp first
  exact silent a.1 a.2 rest arrived

theorem Waits.spent {before : List Sending} {y : Sending} {read : List (Nat × Except Fault Bytes)}
    (waits : Waits p w x deadline before y read) (silent : w.session.Silent w.now)
    (due : deadline ≤ w.now ∨ w.session.line = none) : ∀ a ∈ before ++ [{y with closed:=some w.now}],
      a.frame = x.entry.frame ∧ a.Lapsed p x.entry ∧ a.time+p.timing.responseUs ≤ w.now := by
  intro a member
  rcases List.mem_append.mp member with old | new
  · exact waits.lapses.each a old
  · cases List.mem_singleton.mp new
    exact ⟨waits.frame,waits.lapsed silent due,waits.window ▸ due.resolve_right waits.line⟩

theorem Waits.caught {before : List Sending} {y : Sending} {read rest : List (Nat × Except Fault Bytes)}
    {item : Except Fault Bytes} (waits : Waits p w x deadline before y read)
    (first : w.session.inbox = (ready,item)::rest)
    (due : ready ≤ w.now) (apt : ¬Session.Stray p.format x.entry item) :
    ¬Sending.Lapsed p x.entry {y with closed:=some w.now} := by
  rintro ⟨_,closed,front,back,same,_,inbox,strays,late⟩
  cases same
  dsimp only at inbox late strays
  rw [waits.inbox,first] at inbox
  rcases List.append_eq_append_iff.mp inbox with ⟨more,rfl,rest'⟩ | ⟨more,rfl,rest'⟩
  · cases more with
    | nil =>
      have := late (ready,item) (by rw [← show (ready,item)::rest = back from rest']; rfl)
      exact absurd due (Nat.not_le.mpr this)
    | cons a more =>
      cases (List.cons.inj rest').1
      exact apt (strays (ready,item) (by simp)).2
  · cases more with
    | nil =>
      have := late (ready,item) (by rw [show back = (ready,item)::rest from rest']; rfl)
      exact absurd due (Nat.not_le.mpr this)
    | cons a more =>
      have := late a (by rw [rest']; rfl)
      exact absurd (waits.strays a (by simp)).1 (Nat.not_le.mpr this)

end Watch

theorem Session.Ends.quiet {device : Device} {format : Format} {timing : Timing} {now : Nat} {s t : Session} {e : Entry}
    {outcome : Outcome} {seen : List SessionEvent} (ends : Ends device format timing now s e outcome seen t) :
    endings seen = [] := by cases ends <;> rfl

namespace Watch
variable {p : Post} {w : Watch} {r : Session × List SessionEvent}

theorem stage_turn (stage : Stage p w) (turns : Session.Turns p.device p.format p.timing w.now w.session r) :
    Stage p (w.step r) := by
  cases turns with
  | dialing phase popped line ready failure usage =>
    rw [step_going rfl,overheard_open (by simp [closes,phase])]
    exact .between (by simp) (by simp) (by simpa using stage.unsent (by simp [phase]) (by simp [phase]))
  | @resumed e q phase popped line =>
    rw [step_going rfl,overheard_open (by simp [closes,phase])]
    refine .pausing ⟨e,w.now,p.timing.maxRetries⟩ _ rfl line ?_
    rw [stage.unsent (by simp [phase]) (by simp [phase])]
    exact ⟨by simp,by simp⟩
  | @connected e ready phase =>
    rw [step_going rfl,overheard_open (by simp [closes,phase])]
    refine .pausing ⟨e,w.now,p.timing.maxRetries⟩ _ rfl (by simp [Session.begin]) ?_
    rw [stage.unsent (by simp [phase]) (by simp [phase])]
    exact ⟨by simp [Sending.ofEvent?],by simp [Sending.ofEvent?]⟩
  | @sent x ready l phase due line inbox =>
    obtain ⟨_,lapses⟩ := stage.paused phase
    rw [step_going rfl,overheard_open (by simp [closes,phase])]
    exact .awaiting x _ w.sendings ⟨w.now,x.entry.frame,true,inbox,none⟩ [] rfl
      ⟨by simp,rfl,lapses,rfl,rfl,rfl,rfl,rfl,by simp⟩
  | @strayed x deadline l ready item rest phase line first due stray orphans =>
    obtain ⟨before,y,read,waits⟩ := stage.awaited phase
    rw [step_going rfl,overheard_open (by simp [closes,phase])]
    refine .awaiting x deadline before y (read ++ [(ready,item)]) phase
      ⟨by simp,by simpa using waits.sendings,waits.lapses,waits.frame,waits.taken,waits.unclosed,waits.window,?_,?_⟩
    · have inbox : w.session.inbox = (ready,item)::rest := by simp [Session.inbox,line,first]
      rw [waits.inbox,inbox]
      simp [Session.inbox]
    · intro a member
      rcases List.mem_append.mp member with old | new
      · exact waits.strays a old
      · cases List.mem_singleton.mp new
        exact ⟨due,stray⟩
  | @retried x deadline n phase left silent due =>
    obtain ⟨before,y,read,waits,heard⟩ := overheard_closed (r:=
      ({w.session with
        metrics:={w.session.metrics with timeouts:=w.session.metrics.timeouts+1,retries:=w.session.metrics.retries+1},
        phase:=.pausing {x with left:=n} (w.session.turn p.timing w.now)},[])) stage phase (by simp [closes,phase]) rfl
    rw [step_going rfl,heard]
    refine .pausing {x with left:=n} _ rfl waits.line ⟨?_,waits.spent silent due⟩
    have := waits.lapses.count
    simp only [List.length_append,List.length_singleton]
    omega
  | @ended e outcome seen t ends answer =>
    rw [step_ending ends.serving (by rw [endings_append,ends.quiet]; rfl)]
    exact .between (by simp) (by simp) rfl

end Watch

-- What can be said of a request that has been served: its sendings all carry its frame, are no
-- more than are allowed, and it timed out just if all those were made in vain.
structure Service.Fair (p : Post) (v : Service) : Prop where
  frames : ∀ x ∈ v.sendings, x.frame = v.entry.frame
  few : v.sendings.length ≤ p.timing.maxRetries+1
  timeout : v.outcome = .timeout ↔ v.sendings.length = p.timing.maxRetries+1 ∧ ∀ x ∈ v.sendings, x.Lapsed p v.entry

namespace Watch
variable {p : Post} {w : Watch} {x : Attempt} {e : Entry} {ready deadline : Nat} {r : Session × List SessionEvent}

theorem Stage.going (stage : Stage p w) (serving : w.session.current? = some e) :
    (∀ x ∈ w.sendings, x.frame = e.frame) ∧ w.sendings.length ≤ p.timing.maxRetries+1 ∧
      ¬(w.sendings.length = p.timing.maxRetries+1 ∧ ∀ x ∈ w.sendings, x.Lapsed p e) := by
  cases stage with
  | between _ _ unsent => simp [unsent]
  | pausing x ready phase line lapses =>
    rw [Session.current?,phase] at serving
    cases serving
    have count := lapses.count
    exact ⟨fun y member => (lapses.each y member).1,by omega,fun spent => by have full := spent.1; omega⟩
  | awaiting x deadline before y read phase waits =>
    rw [Session.current?,phase] at serving
    cases serving
    have count := waits.lapses.count
    rw [waits.sendings]
    refine ⟨fun a member => ?_,by simp only [List.length_append,List.length_singleton]; omega,fun spent => ?_⟩
    · rcases List.mem_append.mp member with old | new
      · exact (waits.lapses.each a old).1
      · cases List.mem_singleton.mp new
        exact waits.frame
    · obtain ⟨_,closed,_,_,done,_⟩ := spent.2 y (by simp)
      cases waits.unclosed.symm.trans done

theorem fair_unanswered {sendings : List Sending} {outcome : Outcome} {time : Nat} (other : outcome ≠ .timeout)
    (frames : ∀ x ∈ sendings, x.frame = e.frame) (few : sendings.length ≤ p.timing.maxRetries+1)
    (unlapsed : ¬(sendings.length = p.timing.maxRetries+1 ∧ ∀ x ∈ sendings, x.Lapsed p e)) :
    Service.Fair p ⟨e,sendings,time,outcome⟩ :=
  ⟨frames,few,⟨fun same => absurd same other,fun all => absurd all unlapsed⟩⟩

theorem fair_broken_off {outcome : Outcome} {time : Nat} (other : outcome ≠ .timeout) (stage : Stage p w)
    (serving : w.session.current? = some e) : Service.Fair p ⟨e,w.sendings,time,outcome⟩ :=
  have ⟨frames,few,unlapsed⟩ := stage.going serving
  fair_unanswered other frames few unlapsed

theorem fair_caught {outcome : Outcome} {item : Except Fault Bytes} {rest : List (Nat × Except Fault Bytes)}
    {before : List Sending} {y : Sending} {read : List (Nat × Except Fault Bytes)} (other : outcome ≠ .timeout)
    (waits : Waits p w x deadline before y read) (first : w.session.inbox = (ready,item)::rest) (due : ready ≤ w.now)
    (apt : ¬Session.Stray p.format x.entry item) :
    Service.Fair p ⟨x.entry,before ++ [{y with closed:=some w.now}],w.now,outcome⟩ := by
  refine fair_unanswered other (fun a member => ?_) ?_ fun ⟨_,lapsed⟩ => waits.caught first due apt (lapsed _ (by simp))
  · rcases List.mem_append.mp member with old | new
    · exact (waits.lapses.each a old).1
    · cases List.mem_singleton.mp new
      exact waits.frame
  · have := waits.lapses.count
    simp only [List.length_append,List.length_singleton]
    omega

theorem overheard_ending {seen : List SessionEvent} {t : Session} {c : Completion} {h : Handler}
    (still : closes w.session {t with phase:=.idle} = false) :
    w.overheard ({t with phase:=.idle},seen ++ [.done c h]) =
      w.sendings ++ seen.filterMap (Sending.ofEvent? w.now t.inbox) := by
  rw [overheard_open still,List.filterMap_append]
  exact congrArg (w.sendings ++ ·) (List.append_nil _)

theorem overheard_read {t : Session} {c : Completion} {h : Handler} (stage : Stage p w)
    (phase : w.session.phase = .awaiting x deadline) : ∃ before y read, Waits p w x deadline before y read ∧
      w.overheard ({t with phase:=.idle},[] ++ [.done c h]) = before ++ [{y with closed:=some w.now}] :=
  overheard_closed stage phase (by simp [closes,phase]) rfl

theorem fair_ends {outcome : Outcome} {seen : List SessionEvent} {t : Session} {c : Completion} {h : Handler}
    (stage : Stage p w)
    (ends : Session.Ends p.device p.format p.timing w.now w.session e outcome seen t) :
    Service.Fair p ⟨e,w.overheard ({t with phase:=.idle},seen ++ [.done c h]),w.now,outcome⟩ := by
  have serving := ends.serving
  cases ends with
  | unreachable phase =>
    have silent (inbox : List (Nat × Except Fault Bytes)) :
        w.sendings ++ [SessionEvent.connect false].filterMap (Sending.ofEvent? w.now inbox) = w.sendings :=
          List.append_nil _
    rw [overheard_ending (by simp [closes,phase]),silent]
    exact fair_broken_off (by simp) stage serving
  | @refused x ready f phase due =>
    obtain ⟨_,lapses⟩ := stage.paused phase
    have count := lapses.count
    rw [overheard_ending (by simp [closes,phase])]
    refine fair_unanswered (by simp) ?_ ?_ ?_
    · intro a member
      rcases List.mem_append.mp member with old | new
      · exact (lapses.each a old).1
      · cases List.mem_singleton.mp new
        rfl
    · rw [List.length_append]
      change w.sendings.length+1 ≤ _
      omega
    · rintro ⟨_,lapsed⟩
      cases (lapsed ⟨w.now,x.entry.frame,false,[],none⟩ (List.mem_append_right _ (List.mem_singleton.mpr rfl))).1
  | lost phase line => exact absurd line (stage.paused phase).1
  | @answered x deadline l ready frame rest answer phase line first due matched =>
    obtain ⟨before,y,read,waits,heard⟩ := overheard_read stage phase
    rw [heard]
    have apt : ¬Session.Stray p.format x.entry (.ok frame) := fun stray => stray answer matched
    refine fair_caught ?_ waits (by rw [Session.inbox,line]; exact first) due apt
    unfold Response.outcome
    split <;> simp
  | @broken x deadline l ready f rest phase line first due transport =>
    obtain ⟨before,y,read,waits,heard⟩ := overheard_read stage phase
    rw [heard]
    have apt : ¬Session.Stray p.format x.entry (.error f) := fun stray => Bool.eq_false_iff.mp stray transport
    exact fair_caught (by simp) waits (by rw [Session.inbox,line]; exact first) due apt
  | @timedOut x deadline phase last silent due =>
    obtain ⟨before,y,read,waits,heard⟩ := overheard_read stage phase
    rw [heard]
    have spent := waits.spent silent due
    have count := waits.lapses.count
    have full : (before ++ [{y with closed:=some w.now}]).length = p.timing.maxRetries+1 := by
      simp only [List.length_append,List.length_singleton]
      omega
    exact ⟨fun a member => (spent a member).1,Nat.le_of_eq full,
      fun _ => ⟨full,fun a member => (spent a member).2.1⟩,fun _ => rfl⟩

theorem halt_endings (live : w.session.phase ≠ .stopped) : endings (w.session.halt w.now).2 =
    w.session.held.map fun e => (e.complete .shutdown none (Time.Instant.ofMicros w.now),e.handler) := by
  rw [Session.halt_live live,endings_append]
  have lines : endings w.session.closing = [] := by
    unfold Session.closing
    cases w.session.line <;> rfl
  rw [lines,List.append_nil]
  induction w.session.held with
  | nil => rfl
  | cons e es ih => exact congrArg (_::·) ih

theorem halt_seen (now : Nat) (s : Session) : ∀ x ∈ (s.halt now).2, (∃ c h, x = .done c h) ∨ ∃ n, x = .close n := by
  intro x member
  by_cases finished : s.phase = .stopped
  · rw [Session.halt_stopped finished] at member
    cases member
  · rw [Session.halt_live finished] at member
    rcases List.mem_append.mp member with done | closed
    · obtain ⟨e,_,rfl⟩ := List.mem_map.mp done
      exact .inl ⟨_,_,rfl⟩
    · obtain ⟨l,_,rfl⟩ := Option.map_eq_some_iff.mp (Option.mem_toList.mp closed)
      exact .inr ⟨_,rfl⟩

theorem overheard_halt (w : Watch) : w.overheard (w.session.halt w.now) = w.sendings := by
  have still : closes w.session (w.session.halt w.now).1 = false := by
    unfold closes
    rw [Session.halt_phase]
    cases w.session.phase <;> rfl
  rw [overheard_open still,List.filterMap_eq_nil_iff.mpr,List.append_nil]
  intro x member
  rcases halt_seen _ _ x member with ⟨c,h,rfl⟩ | ⟨n,rfl⟩ <;> rfl

theorem step_halt (serving : w.session.current? = some e) : w.step (w.session.halt w.now) =
    ⟨w.now,(w.session.halt w.now).1,w.past ++ [⟨e,w.sendings,w.now,.shutdown⟩],[],
      w.log ++ (w.session.halt w.now).2.map (w.now,·)⟩ := by
  have live : w.session.phase ≠ .stopped := fun stopped => by simp [Session.current?,stopped] at serving
  have first := halt_endings live
  rw [Session.held,serving] at first
  rw [step_ending serving first,overheard_halt]
  rfl

theorem stage_halt (stage : Stage p w) : Stage p (w.step (w.session.halt w.now)) := by
  have stopped := Session.halt_phase w.now w.session
  cases serving : w.session.current? with
  | some e =>
    rw [step_halt serving]
    exact .between (by simp [stopped]) (by simp [stopped]) rfl
  | none =>
    rw [step_idle serving,overheard_halt]
    exact .between (by simp [stopped]) (by simp [stopped]) (stage.idle serving)

theorem stage_watched (watched : Watched p w) : Stage p w := by
  induction watched with
  | born now => exact .between (by simp [Session.create]) (by simp [Session.create]) rfl
  | queued watched pushed ih =>
    cases ih with
    | between early early' unsent => exact .between early early' unsent
    | pausing x ready phase line lapses => exact .pausing x ready phase line lapses
    | awaiting x deadline before y read phase waits =>
      exact .awaiting x deadline before y read phase { waits with }
  | @passed w t watched later ih =>
    cases ih with
    | between early early' unsent => exact .between early early' unsent
    | pausing x ready phase line lapses => exact .pausing x ready phase line (lapses.later later)
    | awaiting x deadline before y read phase waits =>
      have strays (a : Nat × Except Fault Bytes) (member : a ∈ read) : a.1 ≤ t ∧ Session.Stray p.format x.entry a.2 :=
        ⟨Nat.le_trans (waits.strays a member).1 later,(waits.strays a member).2⟩
      exact .awaiting x deadline before y read phase { waits with lapses:=waits.lapses.later later, strays:=strays }
  | stepped watched steps ih => exact stage_turn ih (Session.steps_turns steps)
  | halted watched ih => exact stage_halt ih

theorem fair_watched (watched : Watched p w) : ∀ v ∈ w.past, v.Fair p := by
  induction watched with
  | born now => simp
  | queued watched pushed ih => exact ih
  | passed watched later ih => exact ih
  | @stepped w r watched steps ih =>
    have stage := stage_watched watched
    cases Session.steps_turns steps with
    | @ended e outcome seen t ends answer =>
      rw [step_ending ends.serving (by rw [endings_append,ends.quiet]; rfl)]
      intro v member
      rcases List.mem_append.mp member with old | new
      · exact ih v old
      · cases List.mem_singleton.mp new
        exact fair_ends stage ends
    | _ =>
      rw [step_going rfl]
      exact ih
  | @halted w watched ih =>
    cases serving : w.session.current? with
    | some e =>
      rw [step_halt serving]
      intro v member
      rcases List.mem_append.mp member with old | new
      · exact ih v old
      · cases List.mem_singleton.mp new
        exact fair_broken_off (by simp) (stage_watched watched) serving
    | none =>
      rw [step_idle serving]
      exact ih

end Watch
end ModbusMaster
