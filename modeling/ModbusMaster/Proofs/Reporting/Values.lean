import ModbusMaster.Proofs.Gateway
import ModbusMaster.Proofs.Point.Writing
import ModbusMaster.Proofs.Session.Supply
namespace ModbusMaster

-- The value of a read that is published as good: the octets of a frame that the device
-- sent in answer, as many as that frame says and has. No part of the way to the report
-- compares them with the width of the point.

structure Ticket.Reads (t : Ticket) (p : Point) : Prop where
  function : t.function = p.registerType.readFunction
  address : t.address = p.address
  quantity : t.quantity = p.width

def Format.readings (format : Format) (frame : Bytes) : Bytes :=
  ((format.contents frame).drop 2).take ((format.contents frame).getD 1 0).toNat

theorem Format.length_readings (format : Format) (frame : Bytes) : (format.readings frame).length =
    min ((format.contents frame).getD 1 0).toNat ((format.contents frame).length-2) := by
  rw [readings,List.length_take,List.length_drop]

theorem RegisterType.values_readings (table : RegisterType) (format : Format) (frame : Bytes) :
    table.readFunction.values ((format.contents frame).drop 1) = format.readings frame := by
  have counted : table.readFunction.isCounted = true := by cases table <;> rfl
  rw [Function.values,if_pos counted,List.drop_drop,Format.readings]
  cases format.contents frame with
  | nil => rfl
  | cons f rest => cases rest <;> rfl

structure Report.Brought (x : Report) (p : Point) (t : Ticket) (d : Device) (format : Format) (frame : Bytes) : Prop where
  asked : t.Reads p
  sent : d.Sends frame
  whole : format.isWhole frame = true
  unit : format.unit? frame = some t.device.unit
  function : (format.contents frame).head?.map (· &&& 0x7F) = some t.function.code
  transaction : format = .tcp → format.transaction? frame = some t.id
  plain : Function.refusal? (format.contents frame) = none
  value : x.value = p.format (format.readings frame)
  -- as many as the width of the point takes, just if the frame says so and has them
  size : (format.readings frame).length = p.size ↔
    min ((format.contents frame).getD 1 0).toNat ((format.contents frame).length-2) = p.size

section
variable {format : Format} {r : OpenRequest} {c : Completion} {x : Report} {h : List Happening}

theorem Outcome.reported_good (o : Outcome) : o.reported = .good ↔ o = .success := by cases o <;> simp [reported]

theorem Report.ofCompletion_value (r : OpenRequest) (success : c.outcome = .success) (reads : c.function.isWrite = false) :
    (ofCompletion r c).value = r.point.format c.data := by
  unfold ofCompletion
  rw [success]
  simp [reads]

theorem Completion.Supplied.brought {d : Device} {frame : Bytes} (supplied : c.Supplied d format frame)
    (success : c.outcome = .success) (reads : (c.ticket .points).Reads r.point) :
    (Report.ofCompletion r c).Brought r.point (c.ticket .points) d format frame := by
  have function : c.function = r.point.registerType.readFunction := reads.function
  refine ⟨reads,supplied.sent,supplied.whole,supplied.unit,supplied.function,supplied.transaction,supplied.plain,?_,?_⟩
  · rw [Report.ofCompletion_value r success (by rw [function,RegisterType.read_only]),supplied.data,function,
      RegisterType.values_readings]
  · rw [Format.length_readings]

theorem good_answered (published : .result x ∈ notes h) (good : x.status = .good) :
    ∃ r c, .answered r c ∈ h ∧ x = Report.ofCompletion r c ∧ c.outcome = .success := by
  obtain ⟨y,member,noted⟩ := List.mem_filterMap.mp published
  cases y with
  | answered r c =>
    cases noted
    rw [(Report.ofCompletion_carries r c).2,Outcome.reported_good] at good
    exact ⟨r,c,member,rfl,good⟩
  | refused r status now =>
    cases noted
    rw [(Report.rejected_carries r status now).2] at good
    cases good
  | skipped p now =>
    cases noted
    cases good
  | told c k live => cases k <;> cases noted
  | _ => cases noted

end

theorem Attributed.answered_prefix {inside : List Ticket} {p : Reporter} {h : List Happening} (attributed : Attributed inside p h)
    (app : UInt16) : ((answeredAs app h).map fun x => (x.1,x.2.ticket .points)) <+: issuedAs app h := by
  have requests := attributed.unanswered app
  have tickets := attributed.issued app
  rw [(attributed.refs app).account,toldTickets_ofPoint,attributed.waiting,List.map_append,List.append_assoc,List.map_map]
    at tickets
  refine ⟨((p.pending.requests[app]?).toList.zip ((p.queue.items.filter (·.app == app)).map (·.ticket .points) ++
    inside.filter (ofPoint app))),?_⟩
  rw [List.zip_of_prod requests tickets.symm,List.zip_append (by simp)]
  congr 1
  exact List.zip_map'.symm

theorem Attributed.answered_issued {inside : List Ticket} {p : Reporter} {h : List Happening} {r : OpenRequest} {c : Completion}
    (attributed : Attributed inside p h) (member : .answered r c ∈ h) :
    .issued r (c.ticket .points) ∈ h ∧ (c,Handler.points) ∈ told h := by
  have here : (r,c) ∈ answeredAs c.app h :=
    List.mem_filter.mpr ⟨List.mem_filterMap.mpr ⟨_,member,rfl⟩,by simp⟩
  refine ⟨?_,?_⟩
  · have among := (attributed.answered_prefix c.app).subset (List.mem_map_of_mem here)
    obtain ⟨y,there,issue⟩ := List.mem_filterMap.mp (List.mem_filter.mp among).1
    cases y with
    | issued =>
      cases issue
      exact there
    | _ => cases issue
  · have among : c ∈ tidings c.app h := by
      rw [attributed.waiting]
      exact List.mem_append_left _ (List.mem_map.mpr ⟨(r,c),here,rfl⟩)
    obtain ⟨⟨c',k⟩,there,rfl⟩ := List.mem_map.mp among
    obtain ⟨there,points⟩ := List.mem_filter.mp there
    simp only [Bool.and_eq_true,beq_iff_eq] at points
    rw [← points.1]
    exact there

namespace Station
variable {s : Station} {h : List Happening} {format : Format} {devices : Peer → Device}

-- What is in the sessions and what has come of them goes back to the far end of each, and
-- the reads of points ask for just those.
structure Supplies (format : Format) (devices : Peer → Device) (s : Station) (h : List Happening) : Prop where
  setting : s.setting = (format,devices)
  sessions : ∀ x ∈ s.engine.sessions.members, x.Fed (devices x.key) ∧ x.Routed
  told : ∀ x ∈ told h, x.1.outcome = .success → ∃ frame, x.1.Supplied (devices x.1.device.session) format frame
  asked : ∀ x ∈ issued h, x.1.kind ≠ .onDemandWrite → x.2.Reads x.1.point

theorem Enters.asked {e : Entry} (enters : s.Enters e h) : ∀ x ∈ issued h, x.1.kind ≠ .onDemandWrite → x.2.Reads x.1.point := by
  cases enters with
  | call => exact fun _ member => by cases member
  | point puts registered framed =>
    intro x member reads
    cases List.mem_singleton.mp member
    obtain ⟨_,_,_,request,n,asked,function,address,quantity⟩ := Engine.framed?_target framed
    rw [puts.reads reads] at asked
    obtain ⟨f,a,q⟩ := Operation.ofPoint_asks asked
    exact ⟨function.trans f,address.trans a,quantity.trans q⟩

theorem Supplies.move (sound : s.engine.Sound) (supplies : Supplies format devices s h) (m : Move) :
    Supplies format devices (s.move m) (h ++ s.happens m) := by
  obtain ⟨setting,sessions,told,asked⟩ := supplies
  have kept : (s.move m).setting = (format,devices) := (move_setting sound m).trans setting
  have unasked (nothing : accepted (s.happens m) = []) :
      ∀ x ∈ issued (h ++ s.happens m), x.1.kind ≠ .onDemandWrite → x.2.Reads x.1.point := by
    intro x member
    rw [issued_append] at member
    rcases List.mem_append.mp member with old | new
    · exact asked x old
    · have taken := issued_accepted new
      rw [nothing] at taken
      cases taken
  have shifts := move_shifts sound m
  generalize turn? m = turn at shifts
  cases shifts with
  | kept members nothing silent =>
    refine ⟨kept,?_,?_,unasked nothing⟩
    · rcases members with same | ⟨empty,_⟩
      · rw [same]
        exact sessions
      · rw [empty]
        exact fun _ member => (List.not_mem_nil member).elim
    · rw [told_append,silent,List.append_nil]
      exact told
  | @entered e enters taken =>
    refine ⟨kept,?_,?_,?_⟩
    · intro x member
      rcases SessionSet.mem_enqueue? taken member with old | ⟨y,q,origin,goal,pushed,rfl⟩
      · exact sessions x old
      · have before : y.Fed (devices y.key) ∧ y.Routed := by
          rcases origin with old | rfl
          · exact sessions y old
          · exact ⟨Session.create_fed _ _ _,Session.create_routed _ _⟩
        exact ⟨before.1,Session.push_routed before.2 pushed goal⟩
    · rw [told_append,enters.told,List.append_nil]
      exact told
    · intro x member
      rw [issued_append] at member
      rcases List.mem_append.mp member with old | new
      · exact asked x old
      · exact enters.asked x new
  | served key turn nothing heard =>
    have turns (y : Session) (member : y ∈ s.engine.sessions.members) (named : y.key = key) :=
      Session.serve_supplied s.engine.format s.engine.sessions.timing s.engine.sessions.halted s.now
        (show y.Fed (devices key) from named ▸ (sessions y member).1) (sessions y member).2
    have same : s.engine.format = format ∧ s.devices = devices := ⟨congrArg Prod.fst setting,congrArg Prod.snd setting⟩
    obtain ⟨rfl,rfl⟩ := same
    refine ⟨kept,?_,?_,unasked nothing⟩
    · intro x member
      rw [turn] at member
      rcases SessionSet.mem_runSession member with old | ⟨y,among,named,rfl⟩
      · exact sessions x old
      · obtain ⟨fed,routed,_⟩ := turns y among named
        rw [Session.serve_key,named]
        exact ⟨fed,routed⟩
    · intro x member
      rw [told_append,heard] at member
      rcases List.mem_append.mp member with old | new
      · exact told x old
      · rcases s.engine.sessions.runSession_tells (s.devices key) s.engine.format s.now key with none | ⟨y,among,named,out⟩
        · rw [none] at new
          cases new
        · rw [out] at new
          obtain ⟨_,_,supplied,routed⟩ := turns y among named
          rw [routed x new,named]
          exact supplied x new

theorem Supplies.moves (sound : Sound s) (supplies : Supplies format devices s h) (ms : List Move) :
    Supplies format devices (s.moves ms) (h ++ s.history ms) := by
  have both := moves_invariant (fun s h => Sound s ∧ Supplies format devices s h)
    (fun _ _ m ⟨sound,supplies⟩ => ⟨move_sound sound m,supplies.move sound.engine m⟩) ⟨sound,supplies⟩ ms
  exact both.2

end Station

namespace Gateway
variable {first : Station} {settings : Settings} {catalog : Catalog} {speaks : Format} {devices : Peer → Device}

theorem started_supplies (started : start settings catalog speaks devices = .ok first) (ms : List Move) :
    Station.Supplies settings.format devices (first.moves ms) (first.history ms) := by
  have sound : first.Sound := (started_known started []).1.sound
  have nothing : Station.Supplies settings.format devices (bare settings catalog devices) [] := by
    refine ⟨rfl,?_,?_,?_⟩ <;> exact fun _ member => (List.not_mem_nil member).elim
  have begun := nothing.moves (Station.sound_create _ _ _ _ _ _) (beginning settings first)
  change Station.Supplies _ _ ((bare settings catalog devices).moves _) _ at begun
  rw [start_moves started] at begun
  exact begun.moves sound ms

structure Reads (settings : Settings) (devices : Peer → Device) (s : Station) (h : List Happening) : Prop where
  -- a good one has the octets of a frame that answered its request, whatever their number
  brought : ∀ x, .result x ∈ shown s.log → x.status = .good → ∃ r t, .issued r t ∈ h ∧ x.Carries r ∧
    (r.kind ≠ .onDemandWrite → ∃ frame, x.Brought r.point t (devices t.device.session) settings.format frame)
  -- and the first such frame makes a good one of whatever it has
  uncompared : ∀ (t : Session) (x : Attempt) (now : Nat) (frame : Bytes), Answers settings.format x.entry frame →
    Function.refusal? (settings.format.contents frame) = none → ∃ c,
      (t.receive settings.format now x (.ok frame)).2 = [.done c x.entry.handler] ∧
      c.data = x.entry.function.values ((settings.format.contents frame).drop 1) ∧
      ∀ r, (Report.ofCompletion r c).status = .good

theorem good_reads_brought (started : start settings catalog speaks devices = .ok first) (ms : List Move) :
    Reads settings devices (first.moves ms) (first.history ms) := by
  obtain ⟨accounted,attributed⟩ := started_known started ms
  have supplies := started_supplies started ms
  refine ⟨?_,?_⟩
  · intro x published good
    rw [accounted.seen] at published
    obtain ⟨r,c,answered,rfl,success⟩ := good_answered published good
    obtain ⟨issued,told⟩ := attributed.answered_issued answered
    refine ⟨r,_,issued,(Report.ofCompletion_carries r c).1,?_⟩
    intro reads
    obtain ⟨frame,supplied⟩ := supplies.told _ told success
    exact ⟨frame,supplied.brought success (supplies.asked _ (List.mem_filterMap.mpr ⟨_,issued,rfl⟩) reads)⟩
  · intro t x now frame answers plain
    have answered : Session.Answered settings.format t x.entry frame (t.receive settings.format now x (.ok frame)) :=
      Session.receive_answered answers
    obtain ⟨c,out,told⟩ := answered.told
    obtain ⟨success,data⟩ := told.served plain
    refine ⟨c,out,data,fun r => ?_⟩
    rw [(Report.ofCompletion_carries r c).2,Outcome.reported_good]
    exact success

-- A device that answers the read of one register with no octets at all.
def hollowAnswer : Bytes := [1,3,0,32,240]
def hollowLine : Peer → Device := fun _ => ⟨fun _ => ⟨0,none⟩,fun _ _ => .answered [⟨0,.ok hollowAnswer⟩]⟩
def inquiry : Entry := ⟨1,1,.readHoldingRegisters,⟨.serial,1⟩,0,1,0,1,[1,3,0,0,0,1,132,10],.points⟩
def inquiring : Session := {Session.create .serial ⟨0,0⟩ with queue:=⟨[inquiry],1,true⟩}
def hollow : Completion := ⟨1,1,.readHoldingRegisters,⟨.serial,1⟩,.success,[],0,1,Time.Instant.ofMicros 0⟩
def hollowReport : Report := Report.ofCompletion (.periodic pressure) hollow
def oneCycle : List Move := [.poll pressure,.serve .serial,.respond 0]

set_option maxRecDepth 8000 in
theorem inquiring_run (timing : Timing) : (inquiring.run (hollowLine .serial) .rtu timing 0).2 =
    [.connect true,.send inquiry.frame,.done hollow .points] := by
  rw [Session.run_step (.taken rfl rfl)]
  simp only [Session.resume]
  rw [Session.run_step (.dialed rfl (Nat.le_refl 0))]
  simp only [Session.resume]
  rw [Session.run_step (.sent rfl (Nat.le_refl 0) rfl)]
  simp only [Session.resume]
  rw [Session.run_step (.received rfl rfl rfl (Nat.le_refl 0))]
  simp only [Session.resume]
  rw [Session.run_quiet rfl]
  rfl

set_option maxRecDepth 8000 in
theorem hollow_published (started : start serialSettings onePoint .rtu hollowLine = .ok first) :
    shown (first.moves oneCycle).log = [.result hollowReport] := by
  have polled : (first.move (.poll pressure)).engine.sessions.find? .serial = some inquiring ∧
      (first.move (.poll pressure)).engine.sessions.halted = false ∧ (first.move (.poll pressure)).engine.format = .rtu ∧
      (first.move (.poll pressure)).now = 0 ∧ (first.move (.poll pressure)).devices = hollowLine := by
    cases started
    exact ⟨rfl,rfl,rfl,rfl,rfl⟩
  obtain ⟨found,serving,format,now,devices⟩ := polled
  have out : ((first.move (.poll pressure)).engine.runSession ((first.move (.poll pressure)).devices .serial)
      (first.move (.poll pressure)).now .serial).2 = [.connect true,.send inquiry.frame,.done hollow .points] := by
    refine (SessionSet.runSession_found _ _ _ found).2.2.trans ?_
    rw [serving,format,now,devices]
    exact inquiring_run _
  change shown (((first.move (.poll pressure)).runSession .serial).move (.respond 0)).log = _
  rw [((first.move (.poll pressure)).runSession_split .serial).1,out]
  generalize ((first.move (.poll pressure)).engine.runSession ((first.move (.poll pressure)).devices .serial)
    (first.move (.poll pressure)).now .serial).1 = m
  clear found serving format now devices out
  cases started
  rfl

theorem good_reads_brought_hollow : ∃ first, start serialSettings onePoint .rtu hollowLine = .ok first ∧
    ∃ r t frame, .issued r t ∈ first.history oneCycle ∧ hollowReport.Brought r.point t (hollowLine t.device.session) .rtu frame := by
  refine ⟨_,rfl,?_⟩
  have started : start serialSettings onePoint .rtu hollowLine = _ := rfl
  obtain ⟨r,t,issued,carries,brought⟩ := (good_reads_brought started oneCycle).brought hollowReport
    (by rw [hollow_published started]; exact List.mem_singleton_self _) rfl
  have demand : r.isOnDemand = false := carries.isOnDemand.symm
  obtain ⟨frame,brought⟩ := brought (by rintro kind; simp [OpenRequest.isOnDemand,kind] at demand)
  exact ⟨r,t,frame,issued,brought⟩

theorem good_read_incomplete : ∃ first x, start serialSettings onePoint .rtu hollowLine = .ok first ∧
    .result x ∈ shown (first.moves oneCycle).log ∧ x.status = .good ∧ x.isOnDemand = false ∧ x.point.size = 2 ∧
    x.value = "0x" := by
  have started : start serialSettings onePoint .rtu hollowLine = _ := rfl
  refine ⟨_,hollowReport,started,?_,rfl,rfl,rfl,rfl⟩
  rw [hollow_published started]
  exact List.mem_singleton_self _

end Gateway
end ModbusMaster
