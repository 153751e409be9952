import ModbusMaster.Proofs.Session.Receiving
import ModbusMaster.Proofs.Session.Serving
namespace ModbusMaster

-- What a session hands on as the answer to a request was in a frame that its far end sent.

def Device.Sends (d : Device) (frame : Bytes) : Prop :=
  ∃ n request arrivals, d.answer n request = .answered arrivals ∧ ∃ a ∈ arrivals, a.item = .ok frame

-- A frame that was sent, answers the request of a completion and does not refuse it, and
-- of which the completion has the values.
structure Completion.Supplied (c : Completion) (d : Device) (format : Format) (frame : Bytes) : Prop where
  sent : d.Sends frame
  whole : format.isWhole frame = true
  unit : format.unit? frame = some c.device.unit
  function : (format.contents frame).head?.map (· &&& 0x7F) = some c.function.code
  transaction : format = .tcp → format.transaction? frame = some c.id
  plain : Function.refusal? (format.contents frame) = none
  data : c.data = c.function.values ((format.contents frame).drop 1)

theorem Told.supplied {d : Device} {format : Format} {e : Entry} {frame : Bytes} {c : Completion}
    (told : Told format e frame c) (answers : Answers format e frame) (sent : d.Sends frame) (success : c.outcome = .success) :
    c.Supplied d format frame := by
  have device : c.device = e.device := congrArg Ticket.device told.ticket
  have function : c.function = e.function := congrArg Ticket.function told.ticket
  have id : c.id = e.id := congrArg Ticket.id told.ticket
  have plain : Function.refusal? (format.contents frame) = none := by
    cases refused : Function.refusal? (format.contents frame) with
    | none => rfl
    | some code =>
      have other := (told.refused code refused).1
      rw [success] at other
      cases other
  refine ⟨sent,answers.whole,?_,?_,?_,plain,?_⟩
  · rw [device]
    exact answers.unit
  · rw [function]
    exact answers.function
  · rw [id]
    exact answers.transaction
  · rw [function]
    exact (told.served plain).2

def Supplied (d : Device) (format : Format) (out : List SessionEvent) : Prop :=
  ∀ x ∈ endings out, x.1.outcome = .success → ∃ frame, x.1.Supplied d format frame

theorem supplied_nil (d : Device) (format : Format) : Supplied d format [] := fun _ member => by cases member

theorem Supplied.append {d : Device} {format : Format} {a b : List SessionEvent} (first : Supplied d format a)
    (second : Supplied d format b) : Supplied d format (a ++ b) := by
  intro x member
  rw [endings_append] at member
  rcases List.mem_append.mp member with early | late
  · exact first x early
  · exact second x late

namespace Session
variable {d : Device} {format : Format} {timing : Timing} {now : Nat} {s t : Session} {e : Entry}

def Fed (d : Device) (s : Session) : Prop := ∀ a ∈ s.inbox, ∀ frame, a.2 = .ok frame → d.Sends frame

def Routed (s : Session) : Prop := ∀ t ∈ s.tickets, t.device.session = s.key

theorem fed_less (fed : s.Fed d) (less : ∀ a ∈ t.inbox, a ∈ s.inbox) : t.Fed d := fun a member => fed a (less a member)

theorem supplied_finish {outcome : Outcome} (other : outcome ≠ .success) (r : Option Response) :
    Supplied d format (s.finish now e outcome r).2 := by
  intro x member success
  cases List.mem_singleton.mp member
  exact absurd success other

theorem fail_supplied (d : Device) (format : Format) (s : Session) (now : Nat) (e : Entry) (started : Nat) (f : Fault) :
    (s.fail now e started f).1.inbox = [] ∧ Supplied d format (s.fail now e started f).2 :=
  ⟨rfl,supplied_finish (by simp) none⟩

theorem supplied_cons {x : SessionEvent} (quiet : x.ending? = none) {out : List SessionEvent}
    (supplied : Supplied d format out) : Supplied d format (x::out) := by
  intro y member
  have same : endings (x::out) = endings out := by simp [endings,quiet]
  rw [same] at member
  exact supplied y member

theorem expire_supplied (d : Device) (format : Format) (s : Session) (timing : Timing) (now : Nat) (x : Attempt) :
    (s.expire timing now x).1.inbox = s.inbox ∧ Supplied d format (s.expire timing now x).2 := by
  unfold expire
  dsimp only
  split
  · exact ⟨rfl,supplied_nil d format⟩
  · exact ⟨rfl,supplied_finish (by simp) none⟩

theorem receive_supplied (format : Format) (now : Nat) (x : Attempt) {item : Except Fault Bytes} (sent : ∀ frame, item = .ok frame → d.Sends frame) :
    (∀ a ∈ (s.receive format now x item).1.inbox, a ∈ s.inbox) ∧ Supplied d format (s.receive format now x item).2 := by
  cases item with
  | error f =>
    simp only [receive]
    split
    · obtain ⟨empty,supplied⟩ := fail_supplied d format s now x.entry x.started f
      exact ⟨by simp [empty],supplied⟩
    · exact ⟨fun _ member => member,supplied_nil d format⟩
  | ok frame =>
    by_cases answers : Answers format x.entry frame
    · obtain ⟨r,decoded,matched⟩ := relevance_matched answers
      simp only [receive,matched]
      refine ⟨fun _ member => member,?_⟩
      intro y member success
      cases List.mem_singleton.mp member
      exact ⟨frame,(Told.of_decoded decoded answers _).supplied answers (sent frame rfl) success⟩
    · simp only [receive,relevance_stray answers]
      cases format.decodes (.ok frame) <;> exact ⟨fun _ member => member,supplied_nil d format⟩

theorem fed_step {r : Session × List SessionEvent} (fed : s.Fed d) (steps : Steps d format timing now s r) :
    r.1.Fed d ∧ Supplied d format r.2 := by
  cases steps with
  | taken =>
    refine ⟨?_,supplied_nil d format⟩
    unfold takeUp
    split <;> exact fed
  | @dialed e ready failure =>
    cases failure with
    | some f =>
      obtain ⟨empty,supplied⟩ := fail_supplied d format s now e now f
      refine ⟨fed_less fed ?_,supplied_cons rfl supplied⟩
      simp [connected,empty]
    | none => exact ⟨fun a member => by simp [connected,begin,inbox] at member,supplied_nil d format⟩
  | @sent x ready l _ _ line =>
    unfold transmit
    dsimp only
    split
    · exact ⟨fun a member => by simp [fail,finish,inbox] at member,supplied_cons rfl (supplied_finish (by simp) none)⟩
    · rename_i arrivals answered
      refine ⟨?_,supplied_nil d format⟩
      intro a member frame
      rcases List.mem_append.mp member with old | new
      · exact fed a (by simpa [inbox,line] using old) frame
      · obtain ⟨b,among,rfl⟩ := List.mem_map.mp new
        exact fun item => ⟨_,_,arrivals,answered,b,among,item⟩
  | lost =>
    obtain ⟨empty,supplied⟩ := fail_supplied d format s now _ _ _
    exact ⟨fed_less fed (by simp [empty]),supplied⟩
  | @received x deadline l ready item rest _ line first =>
    have among (a : Nat × Except Fault Bytes) (member : a ∈ (ready,item)::rest) : a ∈ s.inbox := by
      simpa [inbox,line,first] using member
    obtain ⟨less,supplied⟩ := receive_supplied (s:={s with line:=some {l with inbox:=rest}}) format now x
      fun frame => fed _ (among _ List.mem_cons_self) frame
    exact ⟨fed_less fed fun a member => among a (List.mem_cons_of_mem _ (less a member)),supplied⟩
  | @expired x deadline =>
    obtain ⟨same,supplied⟩ := expire_supplied d format s timing now x
    exact ⟨fed_less fed fun a member => same ▸ member,supplied⟩

theorem fed_run (format : Format) (timing : Timing) (now : Nat) (fed : s.Fed d) : (s.run d format timing now).1.Fed d ∧ Supplied d format (s.run d format timing now).2 := by
  fun_induction run d format timing now s with
  | case1 s quiet => exact ⟨fed,supplied_nil d format⟩
  | case2 s t out stepped u more rest ih =>
    obtain ⟨kept,supplied⟩ := fed_step fed (step_sound stepped)
    rw [rest] at ih
    exact ⟨(ih kept).1,supplied.append (ih kept).2⟩

theorem fed_halt (format : Format) (now : Nat) (fed : s.Fed d) : (s.halt now).1.Fed d ∧ Supplied d format (s.halt now).2 := by
  by_cases finished : s.phase = .stopped
  · rw [halt_stopped finished]
    exact ⟨fed,supplied_nil d format⟩
  · rw [halt_live finished]
    refine ⟨fun a member => by simp [inbox] at member,Supplied.append ?_ ?_⟩
    · intro x member success
      obtain ⟨y,among,ending⟩ := List.mem_filterMap.mp member
      obtain ⟨e,_,rfl⟩ := List.mem_map.mp among
      cases ending
      cases success
    · intro x member
      have closed : endings s.closing = [] := by
        cases line : s.line <;> simp [closing,line,endings,SessionEvent.ending?]
      rw [closed] at member
      cases member

theorem Conserves.routed {r : Session × List SessionEvent} (conserves : Conserves s r) (routed : s.Routed) :
    r.1.Routed ∧ ∀ x ∈ endings r.2, x.1.device.session = s.key := by
  have before (t : Ticket) (member : t ∈ ended r.2 ++ r.1.tickets) : t.device.session = s.key :=
    routed t (by rw [conserves.tickets]; exact member)
  refine ⟨fun t member => (before t (List.mem_append_right _ member)).trans conserves.key.symm,?_⟩
  intro x member
  exact before _ (List.mem_append_left _ (List.mem_map_of_mem (f:=fun x => x.1.ticket x.2) member))

theorem serve_supplied (format : Format) (timing : Timing) (halted : Bool) (now : Nat) (fed : s.Fed d) (routed : s.Routed) :
    (s.serve d format timing halted now).1.Fed d ∧ (s.serve d format timing halted now).1.Routed ∧
      Supplied d format (s.serve d format timing halted now).2 ∧
      ∀ x ∈ endings (s.serve d format timing halted now).2, x.1.device.session = s.key := by
  unfold serve
  split
  · have ends := (conserves_halt now s).routed routed
    have feeds := fed_halt format now fed
    exact ⟨feeds.1,ends.1,feeds.2,ends.2⟩
  · have ends := (conserves_run d format timing now s).routed routed
    have feeds := fed_run format timing now fed
    exact ⟨feeds.1,ends.1,feeds.2,ends.2⟩

theorem push_routed {q : PriorityQueue} (routed : s.Routed) (pushed : s.queue.push? e = some q) (goal : s.key = e.device.session) :
    Routed {s with queue:=q} := by
  intro t member
  rcases List.mem_cons.mp ((SessionSet.push?_tickets pushed).mem_iff.mp member) with rfl | old
  · exact goal.symm
  · exact routed t old

theorem create_routed (key : Peer) (usage : Usage) : (create key usage).Routed := fun t member => by cases member

theorem create_fed (d : Device) (key : Peer) (usage : Usage) : (create key usage).Fed d := fun a member => by cases member

end Session
end ModbusMaster
