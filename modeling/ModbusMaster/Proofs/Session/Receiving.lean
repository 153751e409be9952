import ModbusMaster.Proofs.Frame.Octets
import ModbusMaster.Proofs.Session.Holding
namespace ModbusMaster

-- What a session makes of the frames that come in while it awaits an answer: all of
-- them up to the first that answers are dropped, and that one ends the request.

abbrev Arrivals := List (Nat × Except Fault Bytes)

variable {format : Format} {e : Entry} {frame : Bytes} {r : Response}

theorem Response.answers_exact (decoded : Response.decode format frame = .ok r) :
    r.answers e = true ↔ Answers format e frame := by
  obtain ⟨transaction,unit,splits⟩ := Response.decode_reads decoded
  obtain ⟨function,-,-⟩ := Response.split_reads splits
  have agrees : r.answers e = true ↔
      (∀ t, r.transaction = some t → t = e.id) ∧ r.unit = e.device.unit ∧ r.function = e.function.code := by
    unfold Response.answers
    cases r.transaction <;> simp [and_assoc]
  have same : (∀ t, r.transaction = some t → t = e.id) ↔ (format = .tcp → format.transaction? frame = some e.id) := by
    rw [← transaction]
    cases format with
    | rtu => simp [Format.transaction?]
    | tcp =>
      obtain ⟨t,found⟩ := Format.transaction?_tcp unit
      simp [found]
  rw [agrees,same]
  have whole : format.isWhole frame = true := by rw [← Response.decode_isOk,decoded]; rfl
  refine ⟨fun ⟨t,u,f⟩ => ⟨whole,by rw [unit,u],by rw [function,f],t⟩,fun a => ⟨a.transaction,?_,?_⟩⟩
  · exact Option.some.inj (unit.symm.trans a.unit)
  · exact Option.some.inj (function.symm.trans a.function)

def Format.decodes (format : Format) : Except Fault Bytes → Bool
  | .ok frame => format.isWhole frame
  | .error _ => false

-- What is read and does not answer: any other frame, and what was no whole frame to
-- the transport.
def Stray (format : Format) (e : Entry) : Except Fault Bytes → Prop
  | .ok frame => ¬ Answers format e frame
  | .error f => f.isTransport = false

theorem relevance_matched (answers : Answers format e frame) :
    ∃ r, Response.decode format frame = .ok r ∧ relevance format e frame = .matched r := by
  obtain ⟨r,decoded⟩ := Response.decode_whole answers.whole
  have agrees := (Response.answers_exact decoded).mpr answers
  exact ⟨r,decoded,by simp [relevance,decoded,agrees]⟩

theorem relevance_stray (stray : ¬ Answers format e frame) :
    relevance format e frame = if format.decodes (.ok frame) then .orphan else .undecodable := by
  have counted : format.decodes (.ok frame) = (Response.decode format frame).isOk := (Response.decode_isOk format frame).symm
  rw [counted,relevance]
  cases decoded : Response.decode format frame with
  | error _ => rfl
  | ok r =>
    have differs : r.answers e = false := Bool.eq_false_iff.mpr fun agrees =>
      stray ((Response.answers_exact decoded).mp agrees)
    simp [differs,Except.isOk,Except.toBool]

structure Told (format : Format) (e : Entry) (frame : Bytes) (c : Completion) : Prop where
  ticket : c.ticket e.handler = e.ticket
  refused : ∀ code, Function.refusal? (format.contents frame) = some code → c.outcome = .exception code ∧ c.data = []
  served : Function.refusal? (format.contents frame) = none →
    c.outcome = .success ∧ c.data = e.function.values ((format.contents frame).drop 1)

theorem Told.of_decoded (decoded : Response.decode format frame = .ok r) (answers : Answers format e frame)
    (now : Time.Instant) : Told format e frame (e.complete r.outcome (some r) now) := by
  obtain ⟨-,-,splits⟩ := Response.decode_reads decoded
  obtain ⟨function,exception,payload⟩ := Response.split_reads splits
  have code : r.function = e.function.code := Option.some.inj (function.symm.trans answers.function)
  refine ⟨rfl,?_,?_⟩
  · intro code refused
    rw [refused] at exception
    simp [Entry.complete,Response.outcome,exception]
  · intro served
    rw [served] at exception
    simp [Entry.complete,Response.outcome,exception,Response.data_values code,payload exception]

structure FirstAnswer (format : Format) (e : Entry) (frames strays : Arrivals) (frame : Bytes)
    (ready : Nat) (later : Arrivals) : Prop where
  split : frames = strays ++ (ready,.ok frame)::later
  strays : ∀ a ∈ strays, Stray format e a.2
  answers : Answers format e frame

theorem firstAnswer_or_none (frames : Arrivals)
    (unbroken : ∀ a ∈ frames, ∀ f, a.2 = .error f → f.isTransport = false) :
    (∃ strays frame ready later, FirstAnswer format e frames strays frame ready later) ∨
      ∀ a ∈ frames, Stray format e a.2 := by
  induction frames with
  | nil => exact .inr (by simp)
  | cons a rest ih =>
    by_cases stray : Stray format e a.2
    · rcases ih fun b among => unbroken b (List.mem_cons_of_mem a among) with ⟨strays,frame,ready,later,first⟩ | none
      · refine .inl ⟨a::strays,frame,ready,later,by rw [first.split,List.cons_append],?_,first.answers⟩
        exact List.forall_mem_cons.mpr ⟨stray,first.strays⟩
      · exact .inr (List.forall_mem_cons.mpr ⟨stray,none⟩)
    · obtain ⟨ready,item⟩ := a
      cases item with
      | error f => exact absurd (unbroken _ (List.mem_cons_self ..) f rfl) stray
      | ok frame => exact .inl ⟨[],frame,ready,rest,rfl,by simp,Classical.not_not.mp stray⟩

namespace Session
variable {device : Device} {timing : Timing} {now : Nat} {s t : Session} {l : Line} {x : Attempt} {deadline : Nat}
variable {strays read left rest : Arrivals} {a : Nat × Except Fault Bytes}

def resume (device : Device) (format : Format) (timing : Timing) (now : Nat) (r : Session × List SessionEvent) :
    Session × List SessionEvent :=
  let (s,more) := r.1.run device format timing now
  (s,r.2 ++ more)

theorem run_step {r : Session × List SessionEvent} (steps : Steps device format timing now s r) :
    s.run device format timing now = resume device format timing now r := by
  rw [run]
  split
  · rename_i quiet
    rw [step_complete steps] at quiet
    cases quiet
  · rename_i stepped
    rw [step_complete steps] at stepped
    cases stepped
    rfl

theorem resume_quiet : resume device format timing now (t,[]) = t.run device format timing now := rfl

-- The session after it has read and dropped frames, with others left in its inbox:
-- those that were frames of the format at all are counted.
def past (s : Session) (format : Format) (l : Line) (read left : Arrivals) : Session :=
  {s with line:=some {l with inbox:=left},
          metrics:={s.metrics with orphans:=s.metrics.orphans+read.countP fun a => format.decodes a.2}}

theorem past_nil (line : s.line = some l) : s.past format l [] l.inbox = s := by
  cases s
  cases line
  rfl

theorem past_past (read₁ read₂ mid left : Arrivals) :
    (s.past format l read₁ mid).past format {l with inbox:=mid} read₂ left = s.past format l (read₁ ++ read₂) left := by
  simp [past,List.countP_append,Nat.add_assoc]

structure Faces (format : Format) (s : Session) (x : Attempt) (deadline : Nat) (l : Line) (strays rest : Arrivals) :
    Prop where
  phase : s.phase = .awaiting x deadline
  line : s.line = some l
  inbox : l.inbox = strays ++ rest
  stray : ∀ a ∈ strays, Stray format x.entry a.2

theorem Faces.past (faces : Faces format s x deadline l (read ++ left) rest) :
    Faces format (s.past format l read (left ++ rest)) x deadline {l with inbox:=left ++ rest} left rest :=
  ⟨faces.phase,rfl,rfl,fun a among => faces.stray a (List.mem_append_right _ among)⟩

theorem Faces.next (faces : Faces format s x deadline l (a::strays) rest) :
    Faces format (s.past format l [a] (strays ++ rest)) x deadline {l with inbox:=strays ++ rest} strays rest :=
  ⟨faces.phase,rfl,rfl,fun b among => faces.stray b (List.mem_cons_of_mem a among)⟩

theorem Faces.queued (faces : Faces format s x deadline l strays rest) (q : PriorityQueue) :
    Faces format {s with queue:=q} x deadline l strays rest := ⟨faces.phase,faces.line,faces.inbox,faces.stray⟩

theorem stray_step (faces : Faces format s x deadline l (a::strays) rest) (due : a.1 ≤ now) :
    Steps device format timing now s (s.past format l [a] (strays ++ rest),[]) := by
  have steps : Steps device format timing now s _ := .received faces.phase faces.line faces.inbox due
  suffices receive {s with line:=some {l with inbox:=strays ++ rest}} format now x a.2 =
      (s.past format l [a] (strays ++ rest),[]) from this ▸ steps
  have stray := faces.stray a (List.mem_cons_self ..)
  obtain ⟨ready,item⟩ := a
  cases item with
  | error f =>
    have whole : f.isTransport = false := stray
    simp [receive,whole,past,Format.decodes]
  | ok frame =>
    simp only [receive,relevance_stray stray]
    cases decodes : format.decodes (.ok frame) <;> simp [past,decodes]

theorem run_stray (faces : Faces format s x deadline l (a::strays) rest) (due : a.1 ≤ now) :
    s.run device format timing now = (s.past format l [a] (strays ++ rest)).run device format timing now := by
  rw [run_step (stray_step faces due),resume_quiet]

theorem run_strays (faces : Faces format s x deadline l strays rest) (due : ∀ a ∈ strays, a.1 ≤ now) :
    s.run device format timing now = (s.past format l strays rest).run device format timing now := by
  induction strays generalizing s l with
  | nil => rw [← show l.inbox = rest from faces.inbox,past_nil faces.line]
  | cons a strays ih =>
    rw [List.forall_mem_cons] at due
    rw [run_stray faces due.1,ih faces.next due.2,past_past]
    rfl

-- Reading stops short of `rest`: its first frame, or one in front of it, is still on its way.
def Short (now : Nat) (strays rest : Arrivals) : Prop :=
  (∃ a ∈ strays, now < a.1) ∨ ∀ a ∈ rest.head?, now < a.1

theorem silent_wait (phase : s.phase = .awaiting x deadline) (line : s.line = some l) (silent : s.Silent now)
    (early : now < deadline) : s.step device format timing now = none := by
  cases stepped : s.step device format timing now with
  | none => rfl
  | some r =>
    cases step_sound stepped with
    | @received _ _ _ ready item others _ opened first due =>
      have late := silent ready item others (by simp only [Session.inbox,opened,first])
      omega
    | expired awaiting _ due =>
      cases phase.symm.trans awaiting
      rcases due with late | closed
      · omega
      · rw [line] at closed
        cases closed
    | taken awaiting | dialed awaiting | sent awaiting | lost awaiting => cases phase.symm.trans awaiting

theorem run_wait (faces : Faces format s x deadline l strays rest) (early : now < deadline)
    (short : Short now strays rest) :
    ∃ read left, strays = read ++ left ∧ (∀ a ∈ read, a.1 ≤ now) ∧
      s.run device format timing now = (s.past format l read (left ++ rest),[]) := by
  induction strays generalizing s l with
  | nil =>
    have silent : s.Silent now := by
      intro ready item others first
      simp only [Session.inbox,faces.line,faces.inbox,List.nil_append] at first
      exact short.resolve_left (by simp) (ready,item) (by simp [first])
    refine ⟨[],[],rfl,by simp,?_⟩
    rw [run_quiet (silent_wait faces.phase faces.line silent early),← faces.inbox,past_nil faces.line]
  | cons a strays ih =>
    by_cases due : a.1 ≤ now
    · have ahead : Short now strays rest := by
        rcases short with ⟨b,among,late⟩ | late
        · rcases List.mem_cons.mp among with rfl | among
          · omega
          · exact .inl ⟨b,among,late⟩
        · exact .inr late
      obtain ⟨read,left,split,arrived,ran⟩ := ih faces.next ahead
      refine ⟨a::read,left,by rw [split,List.cons_append],List.forall_mem_cons.mpr ⟨due,arrived⟩,?_⟩
      rw [run_stray faces due,ran,past_past]
      rfl
    · have silent : s.Silent now := silent_later faces.line faces.inbox (by omega)
      refine ⟨[],a::strays,rfl,by simp,?_⟩
      rw [run_quiet (silent_wait faces.phase faces.line silent early),← faces.inbox,past_nil faces.line]

structure Visit where
  now : Nat
  queue : PriorityQueue

def visits (device : Device) (format : Format) (timing : Timing) : List Visit → Session → Session × List SessionEvent
  | [],s => (s,[])
  | v::vs,s =>
    let (t,out) := run device format timing v.now {s with queue:=v.queue}
    let (t,more) := visits device format timing vs t
    (t,out ++ more)

def queueAfter (s : Session) (vs : List Visit) : PriorityQueue := vs.foldl (fun _ v => v.queue) s.queue

theorem visits_quiet {vs us : List Visit} (quiet : visits device format timing vs s = (t,[])) :
    visits device format timing (vs ++ us) s = visits device format timing us t := by
  induction vs generalizing s with
  | nil =>
    cases quiet
    rfl
  | cons v vs ih =>
    simp only [visits,Prod.mk.injEq,List.append_eq_nil_iff] at quiet
    obtain ⟨same,first,others⟩ := quiet
    have went := ih (Prod.ext same others)
    simp only [List.cons_append,visits,went,first,List.nil_append]

-- Over any visits before the deadline, at none of which all strays and the frame behind
-- them have arrived, the session drops strays and goes on waiting.
theorem visits_wait {vs : List Visit} (device : Device) (timing : Timing)
    (faces : Faces format s x deadline l strays rest) (ordered : vs.Pairwise fun u v => u.now ≤ v.now)
    (early : ∀ u ∈ vs, u.now < deadline) (short : ∀ u ∈ vs, Short u.now strays rest) :
    ∃ read left, strays = read ++ left ∧
      visits device format timing vs s = (past {s with queue:=s.queueAfter vs} format l read (left ++ rest),[]) := by
  induction vs generalizing s l strays with
  | nil => exact ⟨[],strays,rfl,by rw [← faces.inbox,past_nil (by exact faces.line)]; rfl⟩
  | cons v vs ih =>
    rw [List.pairwise_cons] at ordered
    rw [List.forall_mem_cons] at early short
    obtain ⟨read,left,rfl,arrived,ran⟩ := run_wait (faces.queued v.queue) early.1 short.1
    have ahead : ∀ u ∈ vs, Short u.now left rest := by
      intro u among
      have later := ordered.1 u among
      refine (short.2 u among).imp (fun ⟨a,mem,late⟩ => ⟨a,?_,late⟩) id
      rcases List.mem_append.mp mem with before | behind
      · have := arrived a before
        omega
      · exact behind
    obtain ⟨more,still,rfl,went⟩ := ih (faces.queued v.queue).past ordered.2 early.2 ahead
    refine ⟨read ++ more,still,(List.append_assoc ..).symm,?_⟩
    rw [visits,ran]
    simp only [went,List.append_nil,← past_past read more (more ++ still ++ rest)]
    rfl

theorem visits_reach {vs : List Visit} {v : Visit} (faces : Faces format s x deadline l strays rest)
    (ordered : vs.Pairwise fun u v => u.now ≤ v.now) (early : ∀ u ∈ vs, u.now < deadline)
    (short : ∀ u ∈ vs, Short u.now strays rest) (due : ∀ a ∈ strays, a.1 ≤ v.now) :
    visits device format timing (vs ++ [v]) s =
      (past {s with queue:=v.queue} format l strays rest).run device format timing v.now := by
  obtain ⟨read,left,rfl,waited⟩ := visits_wait device timing faces ordered early short
  have unread : ∀ a ∈ left, a.1 ≤ v.now := fun a among => due a (List.mem_append_right _ among)
  rw [visits_quiet waited]
  simp only [visits,List.append_nil]
  rw [← past_past read left (left ++ rest)]
  exact run_strays (faces.queued v.queue).past unread

structure Answered (format : Format) (t : Session) (e : Entry) (frame : Bytes) (r : Session × List SessionEvent) :
    Prop where
  told : ∃ c, r.2 = [.done c e.handler] ∧ Told format e frame c
  phase : r.1.phase = .idle
  line : r.1.line = t.line
  queue : r.1.queue = t.queue
  orphans : r.1.metrics.orphans = t.metrics.orphans
  timeouts : r.1.metrics.timeouts = t.metrics.timeouts

structure Expired (t : Session) (x : Attempt) (r : Session × List SessionEvent) : Prop where
  last : x.left = 0 → r.1.phase = .idle ∧ ∃ c, r.2 = [.done c x.entry.handler] ∧
    c.ticket x.entry.handler = x.entry.ticket ∧ c.outcome = .timeout ∧ c.data = []
  again : ∀ n, x.left = n+1 → r.2 = [] ∧ ∃ ready, r.1.phase = .pausing {x with left:=n} ready
  line : r.1.line = t.line
  queue : r.1.queue = t.queue
  orphans : r.1.metrics.orphans = t.metrics.orphans
  timeouts : r.1.metrics.timeouts = t.metrics.timeouts+1

theorem receive_answered (answers : Answers format x.entry frame) :
    Answered format t x.entry frame (receive t format now x (.ok frame)) := by
  obtain ⟨r,decoded,matched⟩ := relevance_matched answers
  simp only [receive,matched]
  exact ⟨⟨_,rfl,Told.of_decoded decoded answers _⟩,rfl,rfl,rfl,rfl,rfl⟩

theorem expire_expired : Expired t x (t.expire timing now x) := by
  unfold expire
  cases left : x.left with
  | zero =>
    refine ⟨fun _ => ⟨rfl,_,rfl,rfl,rfl,rfl⟩,?_,rfl,rfl,rfl,rfl⟩
    intro n more
    exact absurd (left.symm.trans more) (by omega)
  | succ n =>
    refine ⟨fun last => absurd (left.symm.trans last) (by omega),?_,rfl,rfl,rfl,rfl⟩
    intro m more
    cases Nat.succ.inj (left.symm.trans more)
    exact ⟨rfl,_,rfl⟩

-- A sending starts the wait: what the inbox holds from then on is what was left in it and
-- what the far end sends, and the deadline is set once.
theorem transmit_awaits {arrivals : List Arrival} (device : Device) (timing : Timing) (now : Nat)
    (answered : device.answer s.usage.sent x.entry.frame = .answered arrivals) :
    (s.transmit device timing now x l).1.phase = .awaiting x (now+timing.responseUs) ∧
    (s.transmit device timing now x l).1.line =
      some ⟨l.inbox ++ arrivals.map fun a => (now+a.delayUs,a.item),l.sent+1⟩ := by
  simp [transmit,answered]

-- Whatever arrives until the deadline of a sending, and however often the session is let
-- run meanwhile: the first frame that answers ends the request, and without one the
-- deadline does. Until then strays are dropped, and the deadline stays.
theorem first_answer_ends {frames beyond : Arrivals} (device : Device) (format : Format)
    (timing : Timing) (phase : s.phase = .awaiting x deadline) (line : s.line = some l)
    (inbox : l.inbox = frames ++ beyond) (unbroken : ∀ a ∈ frames, ∀ f, a.2 = .error f → f.isTransport = false)
    (intime : ∀ a ∈ frames, a.1 ≤ deadline) (late : ∀ a ∈ beyond.head?, deadline < a.1) :
    ((∃ strays frame ready later, FirstAnswer format x.entry frames strays frame ready later) ∨
      ∀ a ∈ frames, Stray format x.entry a.2) ∧
    (∀ strays frame ready later, FirstAnswer format x.entry frames strays frame ready later →
      ∀ vs : List Visit, vs.Pairwise (fun u v => u.now ≤ v.now) →
        (∀ u ∈ vs, ∃ a ∈ strays ++ [(ready,.ok frame)], u.now < a.1) →
        (∃ read left, strays = read ++ left ∧ visits device format timing vs s =
          (past {s with queue:=s.queueAfter vs} format l read (left ++ (ready,.ok frame)::later ++ beyond),[])) ∧
        ∀ v : Visit, (∀ a ∈ strays ++ [(ready,.ok frame)], a.1 ≤ v.now) →
          ∃ r, Answered format (past {s with queue:=v.queue} format l strays (later ++ beyond)) x.entry frame r ∧
            visits device format timing (vs ++ [v]) s = resume device format timing v.now r) ∧
    ((∀ a ∈ frames, Stray format x.entry a.2) →
      ∀ vs : List Visit, vs.Pairwise (fun u v => u.now ≤ v.now) → (∀ u ∈ vs, u.now < deadline) →
        (∃ read left, frames = read ++ left ∧ visits device format timing vs s =
          (past {s with queue:=s.queueAfter vs} format l read (left ++ beyond),[])) ∧
        ∀ v : Visit, deadline ≤ v.now → (∀ a ∈ beyond.head?, v.now < a.1) →
          ∃ r, Expired (past {s with queue:=v.queue} format l frames beyond) x r ∧
            visits device format timing (vs ++ [v]) s = resume device format timing v.now r) := by
  refine ⟨firstAnswer_or_none frames unbroken,?_,?_⟩
  · intro strays frame ready later first vs ordered waits
    have split : l.inbox = strays ++ (ready,.ok frame)::(later ++ beyond) := by
      rw [inbox,first.split,List.append_assoc,List.cons_append]
    have faces : Faces format s x deadline l strays _ := ⟨phase,line,split,first.strays⟩
    have short : ∀ u ∈ vs, Short u.now strays ((ready,.ok frame)::(later ++ beyond)) := by
      intro u among
      obtain ⟨a,mem,ahead⟩ := waits u among
      rcases List.mem_append.mp mem with before | last
      · exact .inl ⟨a,before,ahead⟩
      · cases List.mem_singleton.mp last
        exact .inr (by simpa using ahead)
    have early : ∀ u ∈ vs, u.now < deadline := by
      intro u among
      obtain ⟨a,mem,ahead⟩ := waits u among
      have within : a ∈ frames := by
        rw [first.split,List.append_cons]
        exact List.mem_append_left _ mem
      exact Nat.lt_of_lt_of_le ahead (intime a within)
    refine ⟨?_,?_⟩
    · simpa [List.append_assoc] using visits_wait device timing faces ordered early short
    · intro v due
      rw [List.forall_mem_append] at due
      rw [visits_reach faces ordered early short due.1]
      have arrived : ready ≤ v.now := due.2 _ (List.mem_singleton_self _)
      exact ⟨_,receive_answered first.answers,
        run_step (.received (l:={l with inbox:=(ready,.ok frame)::(later ++ beyond)}) phase rfl rfl arrived)⟩
  · intro none vs ordered early
    have faces : Faces format s x deadline l frames beyond := ⟨phase,line,inbox,none⟩
    have short : ∀ u ∈ vs, Short u.now frames beyond := fun u among =>
      .inr fun a first => Nat.lt_trans (early u among) (late a first)
    refine ⟨visits_wait device timing faces ordered early short,?_⟩
    intro v finished ahead
    rw [visits_reach faces ordered early short fun a among => Nat.le_trans (intime a among) finished]
    refine ⟨_,expire_expired,run_step (.expired phase ?_ (.inl finished))⟩
    intro ready item others first
    exact ahead (ready,item) (by rw [show beyond = (ready,item)::others from first]; rfl)

-- A read of one register whose true answer comes behind a stale one, one of another unit
-- and a cut one.
def reading : Entry := ⟨7,0,.readHoldingRegisters,⟨.serial,1⟩,0,1,0,0,[],.caller⟩
def stale : Bytes := [0,6,0,0,0,5,1,3,2,0,9]
def foreign : Bytes := [0,7,0,0,0,5,2,3,2,0,9]
def cut : Bytes := [0,7,0,0]
def answer : Bytes := [0,7,0,0,0,5,1,3,2,0,1]
def hasty : Device :=
  ⟨fun _ => ⟨0,none⟩,fun _ _ => .answered [⟨10,.ok stale⟩,⟨20,.ok foreign⟩,⟨30,.ok cut⟩,⟨40,.ok answer⟩]⟩
def waiting : Session := ((create .serial ⟨0,0⟩).transmit hasty Timing.standard 0 ⟨reading,0,0⟩ ⟨[],0⟩).1

def straying : Arrivals := [(10,.ok stale),(20,.ok foreign),(30,.ok cut)]

theorem first_answer_ends_behind_strays : ∃ r c, r.2 = [.done c .caller] ∧ c.outcome = .success ∧ c.data = [0,1] ∧
    r.1.metrics.orphans = 2 ∧
    visits hasty .tcp Timing.standard [⟨15,PriorityQueue.empty⟩,⟨40,PriorityQueue.empty⟩] waiting =
      resume hasty .tcp Timing.standard 40 r := by
  obtain ⟨phase,line⟩ := transmit_awaits (s:=create .serial ⟨0,0⟩) (x:=⟨reading,0,0⟩) (l:=⟨[],0⟩)
    hasty Timing.standard 0 rfl
  have ends := first_answer_ends hasty .tcp Timing.standard (s:=waiting) phase line
    (List.append_nil (straying ++ [(40,.ok answer)])).symm (by simp [straying]) (by decide) (by simp)
  have first : FirstAnswer .tcp reading (straying ++ [(40,.ok answer)]) straying answer 40 [] := by
    refine ⟨rfl,?_,⟨by decide,rfl,rfl,fun _ => rfl⟩⟩
    simp only [straying,List.forall_mem_cons]
    refine ⟨?_,?_,?_,by simp⟩
    · intro a
      exact absurd (a.transaction rfl) (by decide)
    · intro a
      exact absurd a.unit (by decide)
    · intro a
      exact absurd a.whole (by decide)
  obtain ⟨-,done⟩ := ends.2.1 _ _ _ _ first [⟨15,PriorityQueue.empty⟩] (by simp) (by simp [straying])
  obtain ⟨r,answered,ran⟩ := done ⟨40,PriorityQueue.empty⟩ (by simp [straying])
  obtain ⟨c,out,told⟩ := answered.told
  obtain ⟨success,values⟩ := told.served rfl
  exact ⟨r,c,out,success,values,answered.orphans,ran⟩

end Session
end ModbusMaster
