import ModbusMaster.Proofs.Stack.Station
namespace ModbusMaster.Station
variable {s t : Station} {h : List Happening} {e : SessionEvent}

-- How a station comes to rest: once its workers are dismissed each that runs is gone, and
-- once its sessions are halted each that runs has ended.

theorem Attempts.rest (attempts : Attempts s t h) : t.stopped = s.stopped ∧ t.responders = s.responders := by
  cases attempts <;> exact ⟨rfl,rfl⟩

theorem Observes.rest (observes : Observes s e t h) : t.stopped = s.stopped ∧ t.responders.staff = s.responders.staff := by
  cases observes with
  | queued => exact ⟨rfl,(s.responders.grant_staff _).1⟩
  | _ => exact ⟨rfl,rfl⟩

theorem observeAll_rest (key : Peer) (s : Station) (out : List SessionEvent) :
    (out.foldl (observe key) s).stopped = s.stopped ∧ (out.foldl (observe key) s).responders.staff = s.responders.staff := by
  induction out generalizing s with
  | nil => exact ⟨rfl,rfl⟩
  | cons e out ih =>
    have first := (observe_observes key s e).rest
    have rest := ih (observe key s e)
    exact ⟨rest.1.trans first.1,rest.2.trans first.2⟩

theorem Responds.dismissed {w : Nat} (responds : Responds s w t h) (sound : Sound s) (stopped : s.stopped = true) :
    t.stopped = true ∧ ∀ v ∈ t.responders.staff, v ∈ s.responders.staff ∧ v ≠ w := by
  cases responds with
  | left =>
    obtain ⟨resumed,awake⟩ := Pool.resume_staffs sound.staffs w
    refine ⟨stopped,fun v member => ⟨?_,?_⟩⟩
    · exact (s.responders.resume_staff _ w).1.subset ((Pool.leave_staff _ w).subset member)
    · intro same
      subst same
      exact Pool.leave_gone resumed awake member
  | waits running => rw [stopped] at running; cases running
  | works running => rw [stopped] at running; cases running

theorem move_dismissed (sound : Sound s) (stopped : s.stopped = true) (m : Move) :
    (s.move m).stopped = true ∧ ∀ v ∈ (s.move m).responders.staff, v ∈ s.responders.staff ∧ m ≠ .respond v := by
  have same {t : Station} (stays : t.stopped = s.stopped) (staff : t.responders.staff = s.responders.staff)
      (other : ∀ v, m ≠ .respond v) :
      t.stopped = true ∧ ∀ v ∈ t.responders.staff, v ∈ s.responders.staff ∧ m ≠ .respond v :=
    ⟨stays.trans stopped,fun v member => ⟨staff ▸ member,other v⟩⟩
  cases m with
  | start => exact same (by simp only [move]; split <;> rfl) (by simp only [move]; split <;> rfl) (by simp)
  | call t op listening =>
    simp only [move]
    rw [(s.call_rest t op (listener listening)).1]
    exact same rfl rfl (by simp)
  | handle raw =>
    obtain ⟨stays,responders⟩ := (handle_attempts sound.engine raw).rest
    exact same stays (congrArg Pool.staff responders) (by simp)
  | poll p =>
    obtain ⟨stays,responders⟩ := (pollPoint_attempts sound.engine p).rest
    exact same stays (congrArg Pool.staff responders) (by simp)
  | serve key =>
    obtain ⟨stays,staff⟩ := observeAll_rest key
      {s with engine:=(s.engine.runSession (s.devices key) s.now key).1} (s.engine.runSession (s.devices key) s.now key).2
    exact same stays staff (by simp)
  | respond w =>
    simp only [move]
    split
    · obtain ⟨stays,gone⟩ := (s.runResponder_responds w).dismissed sound stopped
      exact ⟨stays,fun v member => ⟨(gone v member).1,fun ran => (gone v member).2 (Move.respond.inj ran).symm⟩⟩
    · rename_i unknown
      refine ⟨stopped,fun v member => ⟨member,fun ran => unknown ?_⟩⟩
      rw [Move.respond.inj ran]
      exact sound.staffs.known v member
  | hire count =>
    simp only [move,spawnResponders]
    rw [wakeAll_same]
    exact same rfl rfl (by simp)
  | clear => exact same (by simp only [move]; split <;> rfl) (by simp only [move]; split <;> rfl) (by simp)
  | drain =>
    simp only [move]
    rw [drain_log]
    exact same rfl rfl (by simp)
  | dismiss => exact same stopped.symm rfl (by simp)
  | _ => exact same rfl rfl (by simp)

theorem Observes.spawned (observes : Observes s e t h) : t.responders.spawned = s.responders.spawned := by
  cases observes with
  | queued => exact (s.responders.grant_staff _).2
  | _ => rfl

theorem observeAll_spawned (key : Peer) (s : Station) (out : List SessionEvent) :
    (out.foldl (observe key) s).responders.spawned = s.responders.spawned := by
  induction out generalizing s with
  | nil => rfl
  | cons e out ih => exact (ih (observe key s e)).trans (observe_observes key s e).spawned

theorem Responds.spawned {w : Nat} (responds : Responds s w t h) : t.responders.spawned = s.responders.spawned := by
  have resumed := (s.responders.resume_staff s.reporter.queue w).2.2.1
  cases responds with
  | waits => rfl
  | _ => exact resumed

theorem move_spawned (sound : Sound s) (m : Move) : s.responders.spawned ≤ (s.move m).responders.spawned := by
  cases m with
  | start => simp only [move]; split <;> exact Nat.le_refl _
  | call t op listening =>
    simp only [move]
    have same := congrArg (fun u : Station => u.responders.spawned) (s.call_rest t op (listener listening)).1
    exact Nat.le_of_eq same.symm
  | handle raw => exact Nat.le_of_eq (congrArg Pool.spawned (handle_attempts sound.engine raw).rest.2.symm)
  | poll p => exact Nat.le_of_eq (congrArg Pool.spawned (pollPoint_attempts sound.engine p).rest.2.symm)
  | serve key =>
    have ran := observeAll_spawned key {s with engine:=(s.engine.runSession (s.devices key) s.now key).1}
      (s.engine.runSession (s.devices key) s.now key).2
    exact Nat.le_of_eq ran.symm
  | respond w =>
    simp only [move]
    split
    · exact Nat.le_of_eq (s.runResponder_responds w).spawned.symm
    · exact Nat.le_refl _
  | hire count =>
    simp only [move,spawnResponders]
    rw [wakeAll_same]
    exact Nat.le_add_right _ _
  | clear => simp only [move]; split <;> exact Nat.le_refl _
  | drain =>
    simp only [move]
    exact Nat.le_of_eq (by rw [drain_log])
  | _ => exact Nat.le_refl _

theorem moves_sound (sound : Sound s) (ms : List Move) : Sound (s.moves ms) := by
  induction ms generalizing s with
  | nil => exact sound
  | cons m ms ih => exact ih (move_sound sound m)

theorem moves_spawned (sound : Sound s) (ms : List Move) : s.responders.spawned ≤ (s.moves ms).responders.spawned := by
  induction ms generalizing s with
  | nil => exact Nat.le_refl _
  | cons m ms ih => exact Nat.le_trans (move_spawned sound m) (ih (move_sound sound m))

theorem moves_dismissed (sound : Sound s) (stopped : s.stopped = true) (ms : List Move) :
    (s.moves ms).stopped = true ∧ ∀ v ∈ (s.moves ms).responders.staff, v ∈ s.responders.staff ∧ .respond v ∉ ms := by
  induction ms generalizing s with
  | nil => exact ⟨stopped,fun v member => ⟨member,by simp⟩⟩
  | cons m ms ih =>
    obtain ⟨stays,before⟩ := move_dismissed sound stopped m
    obtain ⟨last,later⟩ := ih (move_sound sound m) stays
    refine ⟨last,?_⟩
    intro v member
    obtain ⟨still,after⟩ := later v member
    obtain ⟨old,other⟩ := before v still
    exact ⟨old,by simp [after,other.symm]⟩

theorem Attempts.halted (attempts : Attempts s t h) (halted : s.engine.sessions.halted = true) :
    t.engine.sessions = s.engine.sessions := by
  cases attempts with
  | issued _ accepts =>
    rw [accepts.serving] at halted
    cases halted
  | refused _ _ unmoved => exact unmoved.sessions
  | _ => rfl

theorem move_halted (sound : Sound s) (halted : s.engine.sessions.halted = true) {m : Move} (other : m ≠ .start) :
    (s.move m).engine.sessions.halted = true ∧ ∀ x ∈ (s.move m).engine.sessions.members, x.phase ≠ .stopped →
      x ∈ s.engine.sessions.members ∧ m ≠ .serve x.key := by
  have same {r : SessionSet} (kept : r = s.engine.sessions) (quiet : ∀ key, m ≠ .serve key) : r.halted = true ∧
      ∀ x ∈ r.members, x.phase ≠ .stopped → x ∈ s.engine.sessions.members ∧ m ≠ .serve x.key :=
    ⟨kept ▸ halted,fun x member _ => ⟨kept ▸ member,quiet x.key⟩⟩
  cases m with
  | start => exact absurd rfl other
  | configure timing =>
    refine same ?_ (by simp)
    simp only [move,configure,Engine.configure]
    split <;> rfl
  | call t op listening =>
    simp only [move]
    rw [(s.call_rest t op (listener listening)).1]
    exact same (Engine.call_halted sound.engine halted t op (listener listening)) (by simp)
  | handle raw => exact same ((handle_attempts sound.engine raw).halted halted) (by simp)
  | poll p => exact same ((pollPoint_attempts sound.engine p).halted halted) (by simp)
  | serve key =>
    have engine : (s.move (.serve key)).engine = (s.engine.runSession (s.devices key) s.now key).1 :=
      observeAll_engine key _ _
    rw [engine]
    refine ⟨?_,?_⟩
    · exact (SessionSet.runSession_serves sound.engine.sessions _ _ _ _).halted.trans halted
    · intro x member live
      obtain ⟨old,away⟩ := SessionSet.runSession_ends halted _ _ _ _ x member live
      exact ⟨old,fun ran => away (Move.serve.inj ran).symm⟩
  | respond w =>
    simp only [move]
    split
    · exact same (congrArg Engine.sessions (s.runResponder_responds w).engine) (by simp)
    · exact same rfl (by simp)
  | hire count =>
    simp only [move,spawnResponders]
    rw [wakeAll_same]
    exact same rfl (by simp)
  | halt => exact ⟨rfl,fun x member _ => ⟨member,by simp⟩⟩
  | clear =>
    simp only [move]
    split
    · exact ⟨halted,fun x member => by cases member⟩
    · exact same rfl (by simp)
  | drain =>
    simp only [move]
    rw [drain_log]
    exact same rfl (by simp)
  | _ => exact same rfl (by simp)

theorem moves_halted (sound : Sound s) (halted : s.engine.sessions.halted = true) {ms : List Move} (other : .start ∉ ms) :
    ∀ x ∈ (s.moves ms).engine.sessions.members, x.phase ≠ .stopped → x ∈ s.engine.sessions.members ∧ .serve x.key ∉ ms := by
  induction ms generalizing s with
  | nil => exact fun x member _ => ⟨member,by simp⟩
  | cons m ms ih =>
    intro x member live
    rw [List.mem_cons,not_or] at other
    obtain ⟨stays,before⟩ := move_halted sound halted (Ne.symm other.1)
    obtain ⟨still,later⟩ := ih (move_sound sound m) stays other.2 x member live
    obtain ⟨old,away⟩ := before x still live
    exact ⟨old,by simp [later,away.symm]⟩

end ModbusMaster.Station
