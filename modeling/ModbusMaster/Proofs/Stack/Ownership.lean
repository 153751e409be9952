import ModbusMaster.Stack.Engine
import ModbusMaster.Proofs.Session.Members
import ModbusMaster.Proofs.Transaction.Table
namespace ModbusMaster

-- What came in under a mark has left again in the order it came in, but for what is
-- still inside, which is one thing at most.
structure Balanced (mark : Ticket → Bool) (came gone inside : List Ticket) : Prop where
  account : came.filter mark = gone.filter mark ++ inside.filter mark
  single : (inside.filter mark).length ≤ 1

variable {mark : Ticket → Bool} {came gone inside rest out : List Ticket} {t : Ticket}

theorem none_or_one {a : List Ticket} (single : a.length ≤ 1) : a = [] ∨ ∃ t, a = [t] := by
  rcases Nat.le_one_iff_eq_zero_or_eq_one.mp single with none | one
  · exact .inl (List.eq_nil_of_length_eq_zero none)
  · exact .inr (List.length_eq_one_iff.mp one)

theorem perm_of_single {a b : List Ticket} (perm : a.Perm b) (single : b.length ≤ 1) : a = b := by
  rcases none_or_one single with rfl | ⟨t,rfl⟩
  · exact List.perm_nil.mp perm
  · exact List.perm_singleton.mp perm

theorem balanced_nil (mark : Ticket → Bool) : Balanced mark [] [] [] := ⟨rfl,Nat.zero_le 1⟩

theorem balanced_enter (balanced : Balanced mark came gone inside) (perm : rest.Perm (t::inside))
    (fresh : mark t → inside.filter mark = []) : Balanced mark (came ++ [t]) gone rest := by
  have grown := perm.filter mark
  by_cases marked : mark t
  · rw [List.filter_cons_of_pos marked,fresh marked] at grown
    have one := List.perm_singleton.mp grown
    refine ⟨?_,by simp [one]⟩
    rw [List.filter_append,balanced.account,fresh marked,one,List.append_nil,List.filter_cons_of_pos marked,List.filter_nil]
  · rw [List.filter_cons_of_neg marked] at grown
    have same := perm_of_single grown balanced.single
    refine ⟨?_,by rw [same]; exact balanced.single⟩
    rw [List.filter_append,balanced.account,same,List.filter_cons_of_neg marked,List.filter_nil,List.append_nil]

theorem balanced_leave (balanced : Balanced mark came gone inside) (perm : inside.Perm (out ++ rest)) :
    Balanced mark came (gone ++ out) rest := by
  have split := (perm.filter mark).symm
  rw [List.filter_append] at split
  have same := perm_of_single split balanced.single
  refine ⟨?_,?_⟩
  · rw [balanced.account,List.filter_append,List.append_assoc,same]
  · have := balanced.single
    rw [← same,List.length_append] at this
    omega

theorem balanced_exchange {entering : List Ticket} (balanced : Balanced mark came gone inside)
    (perm : (entering ++ inside).Perm (out ++ rest)) (single : entering.length ≤ 1)
    (fresh : ∀ t ∈ entering, mark t → inside.filter mark = []) : Balanced mark (came ++ entering) (gone ++ out) rest := by
  rcases none_or_one single with rfl | ⟨t,rfl⟩
  · rw [List.append_nil]
    exact balanced_leave balanced perm
  · exact balanced_leave (balanced_enter balanced (List.Perm.refl _) (fresh t (List.mem_singleton.mpr rfl))) perm

namespace Engine
variable {m u : Engine} {e : Entry}

def tickets (m : Engine) : List Ticket := m.sessions.tickets

structure Sound (m : Engine) : Prop where
  sessions : m.sessions.Sound
  records : ∀ id, (m.table.get? id).toList = (m.tickets.filter (·.id == id)).map Ticket.record

theorem held_single (sound : Sound m) (id : UInt16) : (m.tickets.filter (·.id == id)).length ≤ 1 := by
  have := congrArg List.length (sound.records id)
  rw [List.length_map] at this
  rw [← this]
  cases m.table.get? id <;> simp

theorem free_iff (sound : Sound m) (id : UInt16) : m.table.get? id = none ↔ m.tickets.filter (·.id == id) = [] := by
  have same := sound.records id
  constructor
  · intro free
    rw [free] at same
    exact List.map_eq_nil_iff.mp same.symm
  · intro nothing
    rw [nothing] at same
    simpa using same

theorem sound_of_none (sessions : m.sessions.Sound) (nothing : m.tickets = []) (free : ∀ id, m.table.get? id = none) :
    Sound m := ⟨sessions,fun id => by simp [nothing,free]⟩

theorem sound_create (format : Format) (slots : Nat) : Sound (create format slots) :=
  sound_of_none (SessionSet.sound_start _) rfl fun id => TransactionTable.get?_empty _ _ id

structure Accepts (m : Engine) (e : Entry) (u : Engine) : Prop where
  sound : Sound u
  fresh : m.table.get? e.id = none
  tickets : u.tickets.Perm (e.ticket::m.tickets)
  same : u = {m with table:=u.table,sessions:=u.sessions}
  serving : m.sessions.halted = false

-- What a refused request leaves behind: other ids may come next, and nothing else.
structure Unmoved (m u : Engine) : Prop where
  records : ∀ id, u.table.get? id = m.table.get? id
  same : u = {m with table:=u.table}

theorem unmoved_refl (m : Engine) : Unmoved m m := ⟨fun _ => rfl,rfl⟩

theorem Unmoved.sessions (unmoved : Unmoved m u) : u.sessions = m.sessions := by rw [unmoved.same]

theorem Unmoved.sound (unmoved : Unmoved m u) (sound : Sound m) : Sound u := by
  refine ⟨by rw [unmoved.sessions]; exact sound.sessions,?_⟩
  intro id
  rw [unmoved.records,sound.records,tickets,tickets,unmoved.sessions]

def framed? (m : Engine) (t : Target) (op : Operation) (handler : Option Handler) : Option Entry := do
  let (r,byteCount) ← op.request?
  let h ← handler
  let (id,_) ← m.table.reserve? ⟨t.app,r.function,t.device⟩
  let frame ← (Frame.build m.format id t.device.unit r).toOption
  some (entryOf t id r byteCount frame h)

theorem framed?_target {t : Target} {op : Operation} {handler : Option Handler} (entered : m.framed? t op handler = some e) :
    e.app = t.app ∧ e.device = t.device ∧ some e.handler = handler ∧
      ∃ r n, op.request? = some (r,n) ∧ e.function = r.function ∧ e.address = r.address ∧ e.quantity = r.quantity := by
  unfold framed? at entered
  simp only [Option.bind_eq_bind,Option.bind_eq_some_iff,Option.some.injEq] at entered
  obtain ⟨⟨r,n⟩,asked,h,rfl,_,_,_,_,rfl⟩ := entered
  exact ⟨rfl,rfl,rfl,r,n,asked,rfl,rfl,rfl⟩

theorem enqueue?_accepts {table : TransactionTable} (sound : Sound m)
    (reserved : m.table.reserve? e.ticket.record = some (e.id,table))
    (taken : enqueue? {m with table:=table} e = some u) : Accepts m e u := by
  obtain ⟨sessions,queued,rfl⟩ := Option.map_eq_some_iff.mp taken
  have enqueues := SessionSet.enqueue?_enqueues sound.sessions queued
  have fresh := TransactionTable.reserve?_fresh reserved
  refine ⟨⟨enqueues.sound,?_⟩,fresh,enqueues.tickets,rfl,enqueues.serving⟩
  intro id
  change (table.get? id).toList = (sessions.tickets.filter _).map _
  have grown := enqueues.tickets.filter (·.id == id)
  rw [TransactionTable.reserve?_get? reserved]
  by_cases here : e.id = id
  · subst here
    have absent := (free_iff sound e.id).mp fresh
    rw [List.filter_cons_of_pos (by simp [Entry.ticket])] at grown
    rw [tickets] at absent
    rw [absent] at grown
    rw [List.perm_singleton.mp grown]
    simp
  · rw [List.filter_cons_of_neg (by simpa [Entry.ticket] using here)] at grown
    rw [perm_of_single grown (held_single sound id),if_neg here]
    exact sound.records id

-- The ends of an offer, one rule for each. Only the first keeps an id.
inductive Offers (m : Engine) (t : Target) (r : Request) (byteCount : UInt16) (h : Handler) : Offer → Engine → Prop where
  | queued {id table frame u} (reserved : m.table.reserve? ⟨t.app,r.function,t.device⟩ = some (id,table))
    (built : Frame.build m.format id t.device.unit r = .ok frame)
    (taken : enqueue? {m with table:=table} (entryOf t id r byteCount frame h) = some u) :
    Offers m t r byteCount h .queued u
  | noSlot (full : m.table.reserve? ⟨t.app,r.function,t.device⟩ = none) : Offers m t r byteCount h .noSlot m
  | unframed {id table e} (reserved : m.table.reserve? ⟨t.app,r.function,t.device⟩ = some (id,table))
    (long : Frame.build m.format id t.device.unit r = .error e) :
    Offers m t r byteCount h (.unframed e) {m with table:=table.release id}
  | refused {id table e} (reserved : m.table.reserve? ⟨t.app,r.function,t.device⟩ = some (id,table)) :
    Offers m t r byteCount h (.refused e) {m with table:=table.release id}

theorem offer_offers (m : Engine) (t : Target) (r : Request) (byteCount : UInt16) (h : Handler) :
    Offers m t r byteCount h (m.offer t r byteCount h).1 (m.offer t r byteCount h).2 := by
  unfold offer
  split
  · rename_i full
    exact .noSlot full
  · rename_i id table reserved
    dsimp only
    split
    · rename_i long
      exact .unframed reserved long
    · rename_i frame built
      split
      · rename_i taken
        exact .queued reserved built taken
      · exact .refused reserved

def Offer.status : Offer → CallStatus
  | queued => .success
  | noSlot => .maxRequestsInFlight
  | unframed _ => .packetLengthExceeded
  | refused _ => .queueSendFailed

inductive Calls (m : Engine) (t : Target) (op : Operation) (handler : Option Handler) : CallStatus → Engine → Prop where
  | invalid : Calls m t op handler .invalidInputParameter m
  | disabled : Calls m t op handler .stackNotInitialized m
  | offered {r n h o u} (asked : op.request? = some (r,n)) (told : handler = some h) (offers : Offers m t r n h o u) :
    Calls m t op handler o.status u

theorem call_calls (m : Engine) (t : Target) (op : Operation) (handler : Option Handler) :
    Calls m t op handler (m.call t op handler).1 (m.call t op handler).2 := by
  unfold call
  split
  · exact .invalid
  · rename_i r n asked
    unfold submit
    split
    · exact .invalid
    · rename_i h
      split
      · exact .invalid
      · split
        · exact .disabled
        · have offers := offer_offers m t r n h
          cases offered : m.offer t r n h with
          | mk o u =>
            rw [offered] at offers
            have calls := Calls.offered asked rfl offers
            cases o <;> exact calls

theorem Offers.accepts {t : Target} {r : Request} {byteCount : UInt16} {h : Handler} {o : Offer} (sound : Sound m)
    (offers : Offers m t r byteCount h o u) : (o = .queued ∧ ∃ id table frame,
        m.table.reserve? ⟨t.app,r.function,t.device⟩ = some (id,table) ∧
        Frame.build m.format id t.device.unit r = .ok frame ∧ Accepts m (entryOf t id r byteCount frame h) u) ∨
      (o ≠ .queued ∧ Unmoved m u) := by
  cases offers with
  | queued reserved built taken => exact .inl ⟨rfl,_,_,_,reserved,built,enqueue?_accepts sound reserved taken⟩
  | noSlot => exact .inr ⟨by simp,unmoved_refl m⟩
  | unframed reserved => exact .inr ⟨by simp,TransactionTable.reserve?_release reserved,rfl⟩
  | refused reserved => exact .inr ⟨by simp,TransactionTable.reserve?_release reserved,rfl⟩

theorem call_cases (sound : Sound m) (t : Target) (op : Operation) (handler : Option Handler) :
    ((m.call t op handler).1 = .success ∧ ∃ e, m.framed? t op handler = some e ∧ Accepts m e (m.call t op handler).2) ∨
      ((m.call t op handler).1 ≠ .success ∧ Unmoved m (m.call t op handler).2) := by
  have calls := call_calls m t op handler
  generalize m.call t op handler = called at calls ⊢
  obtain ⟨status,u⟩ := called
  cases calls with
  | invalid => exact .inr ⟨by simp,unmoved_refl _⟩
  | disabled => exact .inr ⟨by simp,unmoved_refl _⟩
  | offered asked told offers =>
    subst told
    rcases offers.accepts sound with ⟨rfl,id,table,frame,reserved,built,accepts⟩ | ⟨other,unmoved⟩
    · refine .inl ⟨rfl,_,?_,accepts⟩
      simp [framed?,asked,reserved,built,Except.toOption]
    · refine .inr ⟨?_,unmoved⟩
      cases offers with
      | queued => exact absurd rfl other
      | _ => simp

theorem call_halted (sound : Sound m) (halted : m.sessions.halted = true) (t : Target) (op : Operation)
    (handler : Option Handler) : (m.call t op handler).2.sessions = m.sessions := by
  rcases call_cases sound t op handler with ⟨_,e,_,accepts⟩ | ⟨_,unmoved⟩
  · rw [accepts.serving] at halted
    cases halted
  · exact unmoved.sessions

structure Exchanges (m u : Engine) (came gone : List Ticket) : Prop where
  sound : Sound u
  tickets : (came ++ m.tickets).Perm (gone ++ u.tickets)
  single : came.length ≤ 1
  fresh : ∀ t ∈ came, m.table.get? t.id = none

theorem exchanges_quiet (sound : Sound u) (same : u.tickets = m.tickets) : Exchanges m u [] [] :=
  ⟨sound,by rw [same],Nat.zero_le 1,fun t member => by cases member⟩

theorem Accepts.exchanges (accepts : Accepts m e u) : Exchanges m u [e.ticket] [] := by
  refine ⟨accepts.sound,accepts.tickets.symm,Nat.le_refl 1,?_⟩
  intro t member
  rw [List.mem_singleton.mp member]
  exact accepts.fresh

theorem Unmoved.exchanges (unmoved : Unmoved m u) (sound : Sound m) : Exchanges m u [] [] := by
  refine exchanges_quiet (unmoved.sound sound) ?_
  rw [tickets,tickets,unmoved.sessions]

theorem released_get? (table : TransactionTable) (out : List SessionEvent) (id : UInt16) :
    (out.foldl releaseOf table).get? id = if (ended out).filter (·.id == id) = [] then table.get? id else none := by
  induction out generalizing table with
  | nil => rfl
  | cons e out ih =>
    rw [List.foldl_cons,ih,show ended (e::out) = ended [e] ++ ended out from ended_append [e] out,List.filter_append]
    cases e with
    | done c h =>
      have one : ended [.done c h] = [c.ticket h] := rfl
      rw [one,releaseOf,TransactionTable.get?_release]
      by_cases here : c.id = id
      · rw [List.filter_cons_of_pos (by simpa [Completion.ticket] using here)]
        simp [here]
      · rw [List.filter_cons_of_neg (by simpa [Completion.ticket] using here)]
        simp [here]
    | _ => rfl

theorem runSession_exchanges (sound : Sound m) (device : Device) (now : Nat) (key : Peer) :
    Exchanges m (m.runSession device now key).1 [] (ended (m.runSession device now key).2) := by
  have serves := SessionSet.runSession_serves sound.sessions device m.format now key
  unfold runSession
  dsimp only
  generalize m.sessions.runSession device m.format now key = ran at serves
  refine ⟨⟨serves.sound,?_⟩,serves.tickets,Nat.zero_le 1,fun t member => by cases member⟩
  intro id
  change ((ran.2.foldl releaseOf m.table).get? id).toList = (ran.1.tickets.filter _).map _
  have split := (serves.tickets.filter (·.id == id)).symm
  rw [List.filter_append] at split
  have same := perm_of_single split (held_single sound id)
  rw [released_get?]
  by_cases kept : (ended ran.2).filter (·.id == id) = []
  · rw [if_pos kept,sound.records]
    rw [kept,List.nil_append] at same
    rw [same,tickets]
  · -- what ended was the one request of its id
    have single := held_single sound id
    rw [tickets,← same,List.length_append] at single
    have left : ran.1.tickets.filter (·.id == id) = [] := by
      have := List.length_pos_iff.mpr kept
      exact List.eq_nil_of_length_eq_zero (by omega)
    rw [if_neg kept,left]
    rfl

theorem runSession_frees (device : Device) (now : Nat) (key : Peer) :
    ∀ t ∈ ended (m.runSession device now key).2, (m.runSession device now key).1.table.get? t.id = none := by
  intro t member
  change (((m.runSession device now key).2).foldl releaseOf m.table).get? t.id = none
  rw [released_get?,if_neg]
  exact List.ne_nil_of_mem (List.mem_filter.mpr ⟨member,by simp⟩)

def Over (m : Engine) : Prop := ∀ s ∈ m.sessions.members, s.phase = .stopped

theorem tickets_over (sound : Sound m) (finished : Over m) : m.tickets = [] :=
  List.flatMap_eq_nil_iff.mpr fun s member => (sound.sessions.finished s member (finished s member)).1

theorem configure_sound (sound : Sound m) (t : Timing) : Sound (m.configure t).2 := by
  unfold configure
  split
  · exact sound
  · exact ⟨sound.sessions,sound.records⟩

theorem start_exchanges (sound : Sound m) (ready : m.enabled = true ∨ m.sessions.members = []) :
    Exchanges m m.start.2 [] [] := by
  unfold start
  split
  · exact exchanges_quiet sound rfl
  · rename_i disabled
    have nobody := ready.resolve_left disabled
    have none : m.tickets = [] := by rw [tickets,SessionSet.tickets,nobody]; rfl
    refine exchanges_quiet ⟨SessionSet.sound_start _,?_⟩ none.symm
    intro id
    rw [show tickets _ = [] from rfl,← none]
    exact sound.records id

theorem halt_sound (sound : Sound m) : Sound m.halt := ⟨⟨sound.sessions.distinct,sound.sessions.finished⟩,sound.records⟩

theorem clear_exchanges (sound : Sound m) (finished : Over m) : Exchanges m m.clear [] [] := by
  have none : m.clear.tickets = m.tickets := (tickets_over sound finished).symm ▸ rfl
  refine exchanges_quiet ⟨⟨List.nodup_nil,fun s member => by cases member⟩,?_⟩ none
  intro id
  rw [none]
  exact sound.records id

end Engine
end ModbusMaster
