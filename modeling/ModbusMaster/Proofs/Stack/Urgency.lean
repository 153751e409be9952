import ModbusMaster.Proofs.Gateway
import ModbusMaster.Proofs.Reporting.Awaiting
import ModbusMaster.Proofs.Session.Order
namespace ModbusMaster

-- Which of the requests that wait at one session is served first: that goes by their ranks,
-- and by what they were issued for only as far as their ranks do.

namespace Station
variable {s : Station} {h : List Happening} {key : Peer} {a b e : Entry} {x : Session}

structure Rated (s : Station) (h : List Happening) : Prop where
  queues : ∀ x ∈ s.engine.sessions.members, x.queue.Ordered
  rated : ∀ x ∈ s.engine.sessions.members, ∀ e ∈ x.queue.entries, e.handler = .points →
    ∃ r, (issuedAs e.app h).getLast? = some (r,e.ticket) ∧ e.priority = r.rank

theorem queued_ticket (member : x ∈ s.engine.sessions.members) (queued : e ∈ x.queue.entries) : e.ticket ∈ s.engine.tickets :=
  List.mem_flatMap.mpr ⟨x,member,List.mem_map_of_mem (List.mem_append_right _ queued)⟩

-- What is queued is not under a reference that is free.
theorem queued_open (attributed : Attributed s.engine.tickets s.reporter h) (member : x ∈ s.engine.sessions.members)
    (queued : e ∈ x.queue.entries) (points : e.handler = .points) : s.reporter.pending.requests[e.app]? ≠ none := by
  have inside : e.ticket ∈ underway s.engine.tickets s.reporter :=
    List.mem_append_left _ (List.mem_filter.mpr ⟨queued_ticket member queued,by simp [Entry.ticket,points]⟩)
  obtain ⟨r,opened,_⟩ := attributed.traced inside
  rw [show e.app = e.ticket.app from rfl,opened]
  simp

theorem issuedAs_quiet {seen : List Happening} (nothing : accepted seen = []) (app : UInt16) :
    issuedAs app (h ++ seen) = issuedAs app h := by
  have none : issued seen = [] := List.eq_nil_iff_forall_not_mem.mpr fun y member => by
    have taken := issued_accepted member
    rw [nothing] at taken
    cases taken
  rw [issuedAs_append,issuedAs,issuedAs,none,List.filter_nil,List.append_nil]

theorem Enters.rated {seen : List Happening} (enters : s.Enters e seen)
    (attributed : Attributed s.engine.tickets s.reporter h) (rated : Rated s h) :
    (e.handler = .points → ∃ r, (issuedAs e.app (h ++ seen)).getLast? = some (r,e.ticket) ∧ e.priority = r.rank) ∧
    ∀ x ∈ s.engine.sessions.members, ∀ o ∈ x.queue.entries, o.handler = .points →
      ∃ r, (issuedAs o.app (h ++ seen)).getLast? = some (r,o.ticket) ∧ o.priority = r.rank := by
  cases enters with
  | @call t op listening e framed =>
    refine ⟨?_,?_⟩
    · intro points
      have handler := (Engine.framed?_target framed).2.2.1
      rw [points] at handler
      cases listening <;> cases handler
    · intro x member o queued points
      rw [issuedAs_append,(accepted_addsAs o.app e.ticket).1,List.append_nil]
      exact rated.rated x member o queued points
  | @point r id pending device priority op e puts registered framed =>
    have app : e.app = id := (Engine.framed?_target framed).1
    refine ⟨?_,?_⟩
    · intro _
      have rank : e.priority = r.rank := (Engine.framed?_priority framed).trans puts.rank
      exact ⟨r,by simp [Entry.ticket],rank⟩
    · intro x member o queued points
      have apart : e.ticket.app ≠ o.app := by
        intro same
        refine queued_open attributed member queued points ?_
        rw [← same,show e.ticket.app = id from app]
        exact OpenRequests.register?_fresh registered
      rw [issuedAs_append,issuedAs_issued,if_neg apart,List.append_nil]
      exact rated.rated x member o queued points

theorem Rated.move (sound : s.engine.Sound) (attributed : Attributed s.engine.tickets s.reporter h) (rated : Rated s h)
    (m : Move) : Rated (s.move m) (h ++ s.happens m) := by
  have shifts := move_shifts sound m
  generalize turn? m = turn at shifts
  cases shifts with
  | kept members nothing =>
    rcases members with same | ⟨empty,_⟩
    · refine ⟨by rw [same]; exact rated.queues,?_⟩
      intro x member o
      rw [same] at member
      rw [issuedAs_quiet nothing]
      exact rated.rated x member o
    · refine ⟨?_,?_⟩ <;> (rw [empty]; exact fun _ member => (List.not_mem_nil member).elim)
  | @entered e enters taken =>
    obtain ⟨new,old⟩ := enters.rated attributed rated
    refine ⟨?_,?_⟩
    · intro x member
      rcases SessionSet.mem_enqueue? taken member with before | ⟨y,q,origin,_,pushed,rfl⟩
      · exact rated.queues x before
      · refine PriorityQueue.Ordered.push ?_ pushed
        rcases origin with before | rfl
        · exact rated.queues y before
        · exact List.Pairwise.nil
    · intro x member o queued
      rcases SessionSet.mem_enqueue? taken member with before | ⟨y,q,origin,_,pushed,rfl⟩
      · exact old x before o queued
      · rcases List.mem_cons.mp ((PriorityQueue.push?_perm pushed).mem_iff.mp queued) with rfl | waiting
        · exact new
        · rcases origin with before | rfl
          · exact old y before o waiting
          · cases waiting
  | served key turn nothing =>
    refine ⟨?_,?_⟩
    · intro x member
      rw [turn] at member
      rcases SessionSet.mem_runSession member with before | ⟨y,among,_,rfl⟩
      · exact rated.queues x before
      · exact (rated.queues y among).sublist (Session.serve_queue _ _ _ _ _ y).sublist
    · intro x member o queued
      rw [issuedAs_quiet nothing]
      rw [turn] at member
      rcases SessionSet.mem_runSession member with before | ⟨y,among,_,rfl⟩
      · exact rated.rated x before o queued
      · exact rated.rated y among o ((Session.serve_queue _ _ _ _ _ y).subset queued)

theorem Rated.moves (sound : Sound s) (attributed : Attributed s.engine.tickets s.reporter h) (rated : Rated s h)
    (ms : List Move) : Rated (s.moves ms) (h ++ s.history ms) := by
  have all := moves_invariant (fun s h => Sound s ∧ Attributed s.engine.tickets s.reporter h ∧ Rated s h)
    (fun _ _ m ⟨sound,attributed,rated⟩ =>
      ⟨move_sound sound m,move_attributed sound attributed m,rated.move sound.engine attributed m⟩) ⟨sound,attributed,rated⟩ ms
  exact all.2.2

def Before (s : Station) (key : Peer) (a b : Entry) : Prop :=
  ∃ x, s.engine.sessions.find? key = some x ∧ x.queue.Ahead a b

-- A session takes up the one while the other waits, or has been halted and takes up neither.
def Takes (s : Station) (key : Peer) (a b : Entry) : Prop :=
  ∃ x, s.engine.sessions.find? key = some x ∧ (s.engine.sessions.halted = true ∨
    ∃ t, x.Passes (s.devices key) s.engine.format s.engine.sessions.timing s.now t ∧ t.Chosen a b)

theorem serve_before (before : s.Before key a b) :
    (∃ x, (s.engine.sessions.runSession (s.devices key) s.engine.format s.now key).1.find? key = some x ∧ x.queue.Ahead a b) ∨
      s.Takes key a b := by
  obtain ⟨x,found,ahead⟩ := before
  have served := (SessionSet.runSession_found (s.devices key) s.engine.format s.now found).2.1
  by_cases halted : s.engine.sessions.halted = true
  · exact .inr ⟨x,found,.inl halted⟩
  · have ran : x.serve (s.devices key) s.engine.format s.engine.sessions.timing s.engine.sessions.halted s.now =
      x.run (s.devices key) s.engine.format s.engine.sessions.timing s.now := if_neg halted
    rw [ran] at served
    rcases Session.passes_ahead ahead (Session.run_passes _ _ _ _ x) with still | chosen
    · exact .inl ⟨_,served,still⟩
    · exact .inr ⟨x,found,.inr chosen⟩

theorem move_before (sound : s.engine.Sound) (before : s.Before key a b) (m : Move) :
    (s.move m).Before key a b ∨ m = .serve key ∧ s.Takes key a b := by
  have shifts := move_shifts sound m
  generalize turns : turn? m = turn at shifts
  cases shifts with
  | kept members =>
    obtain ⟨x,found,ahead⟩ := before
    rcases members with same | ⟨_,nothing⟩
    · exact .inl ⟨x,by rw [SessionSet.find?,same]; exact found,ahead⟩
    · have held := queued_ticket (SessionSet.find?_mem found) (ahead.subset List.mem_cons_self)
      rw [nothing] at held
      cases held
  | @entered e enters taken =>
    obtain ⟨x,found,ahead⟩ := before
    obtain ⟨_,q,pushed,entered⟩ := SessionSet.enqueue?_entered taken
    refine .inl ?_
    by_cases here : key = e.device.session
    · subst here
      have goal := entered.found
      rw [SessionSet.goal,found,Option.getD_some] at goal pushed
      exact ⟨_,goal,ahead.push pushed⟩
    · exact ⟨x,(entered.others key here).trans found,ahead⟩
  | served other turn =>
    rw [Before,turn]
    by_cases here : other = key
    · subst here
      exact (serve_before before).imp id fun takes => ⟨turn?_serve turns,takes⟩
    · obtain ⟨x,found,ahead⟩ := before
      exact .inl ⟨x,(SessionSet.runSession_other _ _ _ _ (Ne.symm here)).trans found,ahead⟩

theorem moves_before (sound : Sound s) (before : s.Before key a b) (ms : List Move) :
    (s.moves ms).Before key a b ∨ ∃ ks ls, ms = ks ++ .serve key::ls ∧ (s.moves ks).Takes key a b := by
  induction ms generalizing s with
  | nil => exact .inl before
  | cons m ms ih =>
    rcases move_before sound.engine before m with still | ⟨rfl,takes⟩
    · rcases ih (move_sound sound m) still with later | ⟨ks,ls,rfl,takes⟩
      · exact .inl later
      · exact .inr ⟨m::ks,ls,rfl,takes⟩
    · exact .inr ⟨[],ms,rfl,takes⟩

structure Ranks (s : Station) (h : List Happening) : Prop where
  -- each is known for what it was issued for, and has the rank of that
  rated : ∀ x ∈ s.engine.sessions.members, ∀ e ∈ x.queue.entries, e.handler = .points →
    ∃ r, issuedFor h e.ticket = some r ∧ e.priority = r.rank
  -- a request on demand is ahead of the read of a point with a positive priority, and behind
  -- that of one with a negative priority, whichever came first
  demanded : ∀ x ∈ s.engine.sessions.members, ∀ a ∈ x.queue.entries, ∀ b ∈ x.queue.entries, a.handler = .points →
    b.handler = .points → ∀ r q, issuedFor h a.ticket = some r → issuedFor h b.ticket = some q → r.isOnDemand = true →
      q.isOnDemand = false → (0 < q.point.priority → x.queue.Ahead a b) ∧ (q.point.priority < 0 → x.queue.Ahead b a)
  -- of equal ranks the one that came first is ahead
  placed : ∀ x ∈ s.engine.sessions.members, ∀ e q, x.queue.push? e = some q →
    ∀ a ∈ x.queue.entries, if e.priority < a.priority then q.Ahead e a else q.Ahead a e
  -- and what is ahead is taken up first, however the run goes on
  served : ∀ key a b, s.Before key a b → ∀ ms, (s.moves ms).Before key a b ∨
    ∃ ks ls, ms = ks ++ .serve key::ls ∧ (s.moves ks).Takes key a b

theorem Rated.ranks (sound : Sound s) (rated : Rated s h) : Ranks s h := by
  have known : ∀ x ∈ s.engine.sessions.members, ∀ e ∈ x.queue.entries, e.handler = .points →
      ∃ r, issuedFor h e.ticket = some r ∧ e.priority = r.rank := by
    intro x member e queued points
    obtain ⟨r,last,rank⟩ := rated.rated x member e queued points
    exact ⟨r,by rw [issuedFor,show e.ticket.app = e.app from rfl,last]; rfl,rank⟩
  refine ⟨known,?_,fun x member e q pushed => (rated.queues x member).places pushed,fun key a b => moves_before sound⟩
  intro x member a one b other pointsA pointsB r q forA forB demanded periodic
  obtain ⟨r',same,rankA⟩ := known x member a one pointsA
  cases forA.symm.trans same
  obtain ⟨q',same,rankB⟩ := known x member b other pointsB
  cases forB.symm.trans same
  rw [OpenRequest.rank,if_pos demanded] at rankA
  rw [OpenRequest.rank,if_neg (by simp [periodic])] at rankB
  have ordered := rated.queues x member
  refine ⟨fun positive => ordered.ahead one other ?_,fun negative => ordered.ahead other one ?_⟩
  · rw [rankA,rankB]
    exact positive
  · rw [rankA,rankB]
    exact negative

end Station

namespace Gateway
variable {first : Station} {settings : Settings} {catalog : Catalog} {speaks : Format} {devices : Peer → Device}

theorem requests_served_by_rank (started : start settings catalog speaks devices = .ok first) (ms : List Move) :
    (first.moves ms).Ranks (first.history ms) := by
  obtain ⟨accounted,attributed⟩ := started_known started []
  have begun : Station.Rated (bare settings catalog devices) [] := by
    refine ⟨?_,?_⟩ <;> exact fun _ member => (List.not_mem_nil member).elim
  have rated := begun.moves (Station.sound_create _ _ _ _ _ _) (attributed_empty _) (beginning settings first)
  change Station.Rated ((bare settings catalog devices).moves _) _ at rated
  rw [start_moves started] at rated
  exact (rated.moves accounted.sound attributed ms).ranks (started_known started ms).1.sound

def keen : Point := {pressure with metric:="alarm",priority:=-1}
def demand : String := "\x7b\"command\":\"pressure\",\"wellhead\":\"well\",\"sourcetopic\":\"read/pump\"," ++
  "\"app_seq\":\"1\",\"version\":\"1\",\"timestamp\":\"t\",\"usec\":\"0\"\x7d"

-- The read on demand comes first, and waits behind the periodic one.
theorem requests_served_by_rank_keen : ∃ first, start serialSettings onePoint .rtu silentLine = .ok first ∧
    (first.moves [.handle demand,.poll keen]).Ranks (first.history [.handle demand,.poll keen]) ∧
    (first.moves [.handle demand,.poll keen]).engine.sessions.members.map (·.queue.entries.map fun e =>
      (e.priority,(issuedFor (first.history [.handle demand,.poll keen]) e.ticket).map (·.isOnDemand))) =
      [[(-1,some false),(0,some true)]] :=
  ⟨_,rfl,requests_served_by_rank (show start serialSettings onePoint .rtu silentLine = _ from rfl) _,by decide +kernel⟩

end Gateway
end ModbusMaster
