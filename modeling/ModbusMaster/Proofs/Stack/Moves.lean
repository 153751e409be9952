import ModbusMaster.Proofs.Stack.Effects
namespace ModbusMaster.Station
variable {s t : Station} {h : List Happening} {e : SessionEvent} {key : Peer}

-- What a move does to the requests that the stack holds, and what of it is seen.

theorem Attempts.exchanges (attempts : Attempts s t h) (sound : s.engine.Sound) :
    s.engine.Exchanges t.engine (accepted h) (toldTickets h) := by
  cases attempts with
  | nothing => exact Engine.exchanges_quiet sound rfl
  | skipped p => exact Engine.exchanges_quiet sound rfl
  | issued _ accepts => exact accepts.exchanges
  | refused _ _ unmoved => exact unmoved.exchanges sound

theorem Attempts.shown (attempts : Attempts s t h) : shown t.log = shown s.log ++ notes h := by
  cases attempts with
  | nothing => simp [notes]
  | issued => simp [notes,Happening.note?,hold]
  | _ => exact shown_append _ _

theorem Attempts.told (attempts : Attempts s t h) : told h = [] := by cases attempts <;> rfl

theorem Observes.engine (observes : Observes s e t h) : t.engine = s.engine := by cases observes <;> rfl

theorem Observes.told (observes : Observes s e t h) : told h = endings [e] := by
  cases observes with
  | line quiet => simp [endings,quiet,ModbusMaster.told]
  | full =>
    rename_i c full
    exact congrArg ((c,Handler.points)::·) (Reporter.told_answers s.reporter c)
  | _ => rfl

theorem Observes.accepted (observes : Observes s e t h) : accepted h = [] := by
  cases observes with
  | full => exact Reporter.accepted_answers _ _
  | _ => rfl

theorem Observes.shown (observes : Observes s e t h) : shown t.log = shown s.log ++ notes h := by
  cases observes with
  | line => exact shown_append _ _
  | caller c => exact shown_append _ _
  | queued => simp [notes,Happening.note?]
  | full =>
    rename_i c full
    rw [shown_append,shown_results,← Reporter.notes_answers]
    rfl

theorem observeAll_engine (key : Peer) (s : Station) (out : List SessionEvent) :
    (out.foldl (observe key) s).engine = s.engine := by
  induction out generalizing s with
  | nil => rfl
  | cons e out ih => exact (ih (observe key s e)).trans (observe_observes key s e).engine

theorem observesAll_told (key : Peer) (s : Station) (out : List SessionEvent) :
    told (observesAll key s out) = endings out := by
  induction out generalizing s with
  | nil => rfl
  | cons e out ih =>
    rw [observesAll,told_append,ih,(observe_observes key s e).told]
    exact (endings_append [e] out).symm

theorem observesAll_accepted (key : Peer) (s : Station) (out : List SessionEvent) :
    accepted (observesAll key s out) = [] := by
  induction out generalizing s with
  | nil => rfl
  | cons e out ih => rw [observesAll,accepted_append,ih,(observe_observes key s e).accepted,List.append_nil]

theorem observesAll_shown (key : Peer) (s : Station) (out : List SessionEvent) :
    shown (out.foldl (observe key) s).log = shown s.log ++ notes (observesAll key s out) := by
  induction out generalizing s with
  | nil => simp [observesAll,notes]
  | cons e out ih => rw [List.foldl_cons,ih,(observe_observes key s e).shown,observesAll,notes_append,List.append_assoc]

theorem observesAll_live (key : Peer) (s : Station) {out : List SessionEvent} {c : Completion} {k : Handler} {live : Bool}
    (member : .told c k live ∈ observesAll key s out) : c.ticket k ∈ ended out ∧ live = s.engine.table.contains c.id := by
  induction out generalizing s with
  | nil => cases member
  | cons e out ih =>
    rw [show ended (e::out) = ended [e] ++ ended out from ended_append [e] out]
    have observed := observe_observes key s e
    rcases List.mem_append.mp member with now | later
    · refine ⟨List.mem_append_left _ ?_,?_⟩
      · rw [ended,← observed.told]
        exact List.mem_map.mpr ⟨(c,k),List.mem_filterMap.mpr ⟨_,now,rfl⟩,rfl⟩
      · generalize observe key s e = u at observed
        generalize s.observes e = seen at observed now
        cases observed with
        | line => cases now
        | caller => cases List.mem_singleton.mp now; rfl
        | queued => cases List.mem_singleton.mp now; rfl
        | full =>
          rcases List.mem_cons.mp now with same | answer
          · cases same; rfl
          · obtain ⟨_,_,wrong⟩ := List.mem_map.mp answer
            cases wrong
    · obtain ⟨among,live⟩ := ih (observe key s e) later
      exact ⟨List.mem_append_right _ among,by rw [live,observed.engine]⟩

theorem runSession_split (s : Station) (key : Peer) :
    s.runSession key = (s.engine.runSession (s.devices key) s.now key).2.foldl (observe key)
        {s with engine:=(s.engine.runSession (s.devices key) s.now key).1} ∧
      s.serves key = observesAll key {s with engine:=(s.engine.runSession (s.devices key) s.now key).1}
        (s.engine.runSession (s.devices key) s.now key).2 := ⟨rfl,rfl⟩

theorem serve_exchanges (sound : s.engine.Sound) (key : Peer) :
    s.engine.Exchanges (s.runSession key).engine (accepted (s.serves key)) (toldTickets (s.serves key)) := by
  obtain ⟨run,heard⟩ := s.runSession_split key
  rw [run,heard,toldTickets,observeAll_engine,observesAll_accepted,observesAll_told]
  exact Engine.runSession_exchanges sound (s.devices key) s.now key

theorem call_exchanges (sound : s.engine.Sound) (t : Target) (op : Operation) (handler : Option Handler) :
    s.engine.Exchanges (s.call t op handler).2.engine (accepted (s.calls t op handler))
      (toldTickets (s.calls t op handler)) := by
  have engine : (s.call t op handler).2.engine = (s.engine.call t op handler).2 := by
    unfold call
    dsimp only
    split
    · rw [wake_same]
    · rfl
  rw [engine]
  unfold calls
  rcases Engine.call_cases sound t op handler with ⟨success,e,entered,accepts⟩ | ⟨other,unmoved⟩
  · rw [if_pos success,entered]
    exact accepts.exchanges
  · rw [if_neg other]
    exact unmoved.exchanges sound

theorem Responds.engine {w : Nat} (responds : Responds s w t h) : t.engine = s.engine := by cases responds <;> rfl

theorem Responds.quiet {w : Nat} (responds : Responds s w t h) : accepted h = [] ∧ told h = [] := by
  cases responds with
  | works => exact ⟨Reporter.accepted_drainedUpTo _ _,Reporter.told_drainedUpTo _ _⟩
  | _ => exact ⟨rfl,rfl⟩

theorem Responds.shown {w : Nat} (responds : Responds s w t h) : shown t.log = shown s.log ++ notes h := by
  cases responds with
  | works => rw [shown_append,shown_results,Reporter.drained,Reporter.notes_drainedUpTo]; rfl
  | _ => simp [notes]

theorem over_iff (s : Station) : s.engine.sessions.members.all Session.isOver = true ↔ s.engine.Over := by
  simp [Engine.Over,Session.isOver_iff]

theorem move_exchanges (sound : s.engine.Sound) (m : Move) :
    s.engine.Exchanges (s.move m).engine (accepted (s.happens m)) (toldTickets (s.happens m)) := by
  have same : s.engine.Exchanges s.engine [] [] := Engine.exchanges_quiet sound rfl
  cases m with
  | configure timing =>
    refine Engine.exchanges_quiet (Engine.configure_sound sound timing) ?_
    simp only [move,configure,Engine.configure]
    split <;> rfl
  | start =>
    simp only [move]
    split
    · rename_i ready
      exact Engine.start_exchanges sound (by simpa using ready)
    · exact same
  | call t op listening => exact call_exchanges sound t op (listener listening)
  | handle raw => exact (handle_attempts sound raw).exchanges sound
  | poll p => exact (pollPoint_attempts sound p).exchanges sound
  | clock now => exact same
  | serve key => exact serve_exchanges sound key
  | respond w =>
    simp only [move,happens]
    split
    · have responds := s.runResponder_responds w
      rw [responds.engine,toldTickets,responds.quiet.1,responds.quiet.2]
      exact same
    · exact same
  | hire count =>
    simp only [move,spawnResponders]
    rw [wakeAll_same]
    exact same
  | dismiss => exact same
  | halt => exact Engine.exchanges_quiet (Engine.halt_sound sound) rfl
  | clear =>
    simp only [move]
    split
    · rename_i all
      exact Engine.clear_exchanges sound (s.over_iff.mp all)
    · exact same
  | drain =>
    simp only [move,happens,Reporter.drained]
    rw [drain_log,toldTickets,Reporter.accepted_drainedUpTo,Reporter.told_drainedUpTo]
    exact same
  | arrange => exact same

theorem move_shown (sound : s.engine.Sound) (m : Move) :
    shown (s.move m).log = shown s.log ++ notes (s.happens m) := by
  have same : shown s.log = shown s.log ++ notes [] := (List.append_nil _).symm
  cases m with
  | start => simp only [move]; split <;> exact same
  | call t op listening =>
    have log : (s.call t op (listener listening)).2.log = s.log := by
      unfold call
      dsimp only
      split
      · rw [wake_same]
      · rfl
    have nothing : notes (s.calls t op (listener listening)) = [] := by
      unfold calls
      split
      · cases entered : s.engine.framed? t op (listener listening) <;> rfl
      · rfl
    simp only [move,happens,log,nothing,List.append_nil]
  | handle raw => exact (handle_attempts sound raw).shown
  | poll p => exact (pollPoint_attempts sound p).shown
  | serve key => exact observesAll_shown key _ _
  | respond w =>
    simp only [move,happens]
    split
    · exact (s.runResponder_responds w).shown
    · exact same
  | hire count =>
    simp only [move,spawnResponders]
    rw [wakeAll_same]
    exact same
  | clear => simp only [move]; split <;> exact same
  | drain =>
    simp only [move,happens]
    rw [drain_log,shown_append,shown_results,Reporter.drained,Reporter.notes_drainedUpTo]
    rfl
  | _ => exact same

theorem move_freed (sound : s.engine.Sound) {m : Move} {c : Completion} {k : Handler} {live : Bool}
    (member : .told c k live ∈ s.happens m) : live = false := by
  have among (nothing : told (s.happens m) = []) : False := by
    have : (c,k) ∈ told (s.happens m) := List.mem_filterMap.mpr ⟨_,member,rfl⟩
    rw [nothing] at this
    cases this
  cases m with
  | serve key =>
    obtain ⟨_,heard⟩ := s.runSession_split key
    simp only [happens,heard] at member
    obtain ⟨ended,live⟩ := observesAll_live key _ member
    have free := Engine.runSession_frees _ _ _ _ ended
    rw [live,TransactionTable.contains_get?]
    exact Option.isSome_eq_false_iff.mpr (Option.isNone_iff_eq_none.mpr free)
  | call t op listening =>
    refine (among ?_).elim
    simp only [happens,calls]
    split
    · cases s.engine.framed? t op (listener listening) <;> rfl
    · rfl
  | handle raw => exact (among (handle_attempts sound raw).told).elim
  | poll p => exact (among (pollPoint_attempts sound p).told).elim
  | respond w =>
    refine (among ?_).elim
    simp only [happens]
    split
    · exact (s.runResponder_responds w).quiet.2
    · rfl
  | drain => exact (among (Reporter.told_drainedUpTo _ _)).elim
  | _ => cases member

end ModbusMaster.Station
