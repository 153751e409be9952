import ModbusMaster.Proofs.Stream.Reassembly
namespace ModbusMaster.Stream

-- How receivers on a socket come to an end: after how many reads a call is over, and what the calls
-- give once the peer has hung up.

def Read.carries : Read → Bool
  | data _ => true
  | _ => false

theorem again_append (left : Bytes) (rest more : List Read) : again left (rest ++ more) = again left rest ++ more := by
  unfold again
  split <;> rfl

theorem mem_again {left : Bytes} {rest : List Read} {r : Read} (member : r ∈ rest) : r ∈ again left rest := by
  unfold again
  split
  · exact member
  · exact List.mem_cons_of_mem _ member

theorem again_filled {left : Bytes} {rest : List Read} (filled : ∀ r ∈ rest, r ≠ .data []) :
    ∀ r ∈ again left rest, r ≠ .data [] := by
  unfold again
  split
  · exact filled
  · rename_i some
    refine List.forall_mem_cons.mpr ⟨?_,filled⟩
    rintro ⟨⟩
    exact some rfl

theorem carries_again (left : Bytes) (rest : List Read) : rest.countP Read.carries ≤ (again left rest).countP Read.carries := by
  unfold again
  split
  · exact Nat.le_refl _
  · exact Nat.le_trans (Nat.le_add_right _ _) (Nat.le_of_eq List.countP_cons.symm)

theorem carries_le {reads : List Read} (filled : ∀ r ∈ reads, r ≠ .data []) : reads.countP Read.carries ≤ (unread reads).length := by
  induction reads with
  | nil => exact Nat.le_refl _
  | cons r reads ih =>
    obtain ⟨first,others⟩ := List.forall_mem_cons.mp filled
    have rest := ih others
    have split : (unread (r::reads)).length = r.octets.length+(unread reads).length := by simp [unread]
    cases r with
    | data b =>
      have some := List.length_pos_iff.mpr (mt (congrArg Read.data) first)
      simp only [List.countP_cons,Read.carries,if_true]
      simp only [Read.octets] at split
      omega
    | _ =>
      simp only [List.countP_cons,Read.carries]
      simp only [Read.octets] at split
      simp
      omega

theorem length_accept_some (b : Buffer) {arrived : Bytes} (some : arrived ≠ []) :
    b.bytes.length < (b.accept arrived).1.bytes.length := by
  have taken := congrArg List.length (b.accept_bytes arrived)
  have left := b.length_accept arrived
  have room := b.room_ready
  have filled := List.length_pos_iff.mpr some
  rw [List.length_append,List.length_append] at taken
  omega

namespace Tcp
variable {t u : Tcp} {f b : Bytes} {reads left : List Read} {n m : Nat} {res : Received × List Read × Tcp}

-- Octets that do not make up a frame yet, and do not rule one out.
def Short (b : Bytes) : Prop := ∀ n, Frame.tcpLength? b = some n → 8 ≤ n ∧ n ≤ 260 ∧ b.length < n

def Misled (b : Bytes) (n : Nat) : Prop := Frame.tcpLength? b = some n ∧ (n < 8 ∨ 260 < n)

def misleading (n : Nat) : Fault := .frame ("Invalid MBAP length in frame of " ++ toString n ++ " bytes")

inductive Next (t : Tcp) : Except Fault (Option Bytes) × Tcp → Prop where
  | frame {f rest : Bytes} (whole : Whole f) (begins : t.buffer.bytes = f ++ rest) :
      Next t (.ok (some f),{t with buffer:={t.buffer with bytes:=rest}})
  | junk {n : Nat} (misled : Misled t.buffer.bytes n) :
      Next t (.error (misleading n),{t with buffer:=t.buffer.clear,stats:=t.stats.onError})
  | short (short : Short t.buffer.bytes) : Next t (.ok none,t)

theorem tcpLength?_take (known : Frame.tcpLength? b = some n) (enough : 6 ≤ m) : Frame.tcpLength? (b.take m) = some n := by
  unfold Frame.tcpLength? at known
  split at known
  · obtain ⟨k,rfl⟩ := Nat.exists_eq_add_of_le' enough
    exact known
  · cases known

theorem nextFrame_next (t : Tcp) : Next t t.nextFrame := by
  unfold nextFrame
  split
  · rename_i unknown
    exact .short fun n known => by simp [unknown] at known
  · rename_i n known
    split
    · rename_i outside
      simp only [Bool.or_eq_true,decide_eq_true_eq] at outside
      exact .junk ⟨known,outside⟩
    · rename_i inside
      simp only [Bool.or_eq_true,decide_eq_true_eq,not_or,Nat.not_lt] at inside
      have least : 8 ≤ n := inside.1
      have most : n ≤ 260 := inside.2
      split
      · rename_i missing
        refine .short fun m known' => ?_
        cases known.symm.trans known'
        exact ⟨least,most,missing⟩
      · rename_i enough
        have length : (t.buffer.bytes.take n).length = n := List.length_take_of_le (Nat.not_lt.mp enough)
        have whole : Whole (t.buffer.bytes.take n) := by
          refine ⟨?_,by rw [length]; exact least,by rw [length]; exact most⟩
          rw [length]
          exact tcpLength?_take known (by omega)
        exact .frame whole (List.take_append_drop n t.buffer.bytes).symm

theorem Short.nextFrame (short : Short t.buffer.bytes) : t.nextFrame = (.ok none,t) := by
  have next := nextFrame_next t
  generalize t.nextFrame = r at next
  cases next with
  | frame whole begins =>
    have missing := (short _ (begins ▸ tcpLength?_append whole.declared _)).2.2
    rw [begins,List.length_append] at missing
    omega
  | junk misled =>
    obtain ⟨least,most,_⟩ := short _ misled.1
    have := misled.2
    omega
  | short => rfl

theorem nextFrame_short (found : t.nextFrame = (.ok none,u)) : u = t ∧ Short t.buffer.bytes := by
  have next := nextFrame_next t
  rw [found] at next
  cases next with
  | short short => exact ⟨rfl,short⟩

theorem Short.few (short : Short b) : b.length < 260 := by
  cases known : Frame.tcpLength? b with
  | some n =>
    obtain ⟨_,most,missing⟩ := short n known
    omega
  | none =>
    refine Nat.not_le.mp fun many => ?_
    match b,many with
    | _::_::_::_::_::_::_,_ => cases known

theorem Misled.six (misled : Misled b n) : 6 ≤ b.length := by
  refine Nat.not_lt.mp fun few => ?_
  have known := misled.1
  unfold Frame.tcpLength? at known
  split at known
  · simp at few
    omega
  · cases known

inductive Gives (t : Tcp) (reads : List Read) : Received × List Read × Tcp → Prop where
  | frame {f : Bytes} {left : List Read} {u : Tcp} (whole : Whole f)
    (octets : t.buffer.bytes ++ unread reads = f ++ (u.buffer.bytes ++ unread left)) : Gives t reads (.frame f,left,u)
  -- a header that cannot be right takes all that was read with it
  | junk {n : Nat} {lost : Bytes} {left : List Read} {u : Tcp} (misled : Misled lost n) (cleared : u.buffer.bytes = [])
    (octets : t.buffer.bytes ++ unread reads = lost ++ unread left) : Gives t reads (.fault (misleading n),left,u)
  | ended {f : Fault} {left : List Read} {u : Tcp} (transport : f.isTransport = true) (off : u.connected = false)
    (short : Short u.buffer.bytes) (octets : t.buffer.bytes ++ unread reads = u.buffer.bytes ++ unread left) :
      Gives t reads (.fault f,left,u)
  | pending {u : Tcp} (short : Short u.buffer.bytes) (on : u.connected = true) (filled : ∀ r ∈ reads, r ≠ .data [])
    (octets : t.buffer.bytes ++ unread reads = u.buffer.bytes) : Gives t reads (.pending,[],u)

theorem Gives.congr {others : List Read} (gives : Gives u others res)
    (same : t.buffer.bytes ++ unread reads = u.buffer.bytes ++ unread others)
    (filled : (∀ r ∈ others, r ≠ .data []) → ∀ r ∈ reads, r ≠ .data []) : Gives t reads res := by
  cases gives with
  | frame whole octets => exact .frame whole (same.trans octets)
  | junk misled cleared octets => exact .junk misled cleared (same.trans octets)
  | ended transport off short octets => exact .ended transport off short (same.trans octets)
  | pending short on full octets => exact .pending short on (filled full) (same.trans octets)

theorem receive_gives (t : Tcp) (reads : List Read) : Gives t reads (t.receive reads) := by
  fun_induction receive t reads with
  | case1 t reads f u found =>
    have next := nextFrame_next t
    rw [found] at next
    cases next with
    | junk misled => exact .junk misled rfl rfl
  | case2 t reads f u found =>
    have next := nextFrame_next t
    rw [found] at next
    cases next with
    | frame whole begins => exact .frame whole (by rw [begins,List.append_assoc])
  | case3 t reads u found closed =>
    obtain ⟨rfl,short⟩ := nextFrame_short found
    exact .ended rfl (by simpa using closed) short rfl
  | case4 t u found opened =>
    obtain ⟨rfl,short⟩ := nextFrame_short found
    exact .pending short (by simpa using opened) (List.forall_mem_nil _) (List.append_nil _)
  | case5 t u found opened rest ih =>
    obtain ⟨rfl,_⟩ := nextFrame_short found
    exact ih.congr rfl fun filled => List.forall_mem_cons.mpr ⟨by simp,filled⟩
  | case6 t u found opened rest =>
    obtain ⟨rfl,short⟩ := nextFrame_short found
    exact .ended rfl rfl short rfl
  | case7 t u found opened x b rest ih =>
    obtain ⟨rfl,_⟩ := nextFrame_short found
    refine ih.congr ?_ fun filled => List.forall_mem_cons.mpr ⟨by simp,fun r member => filled r (mem_again member)⟩
    rw [unread_again,← List.append_assoc,u.buffer.accept_bytes (x::b),List.append_assoc]
    rfl
  | case8 t u found opened message rest =>
    obtain ⟨rfl,short⟩ := nextFrame_short found
    exact .ended rfl rfl short rfl

-- A call that is over has not looked at what comes later, and one that is not goes on with it.
theorem receive_append (t : Tcp) (reads more : List Read) : t.receive (reads ++ more) =
    match t.receive reads with
    | (.pending,_,u) => u.receive more
    | (r,left,u) => (r,left ++ more,u) := by
  fun_induction receive t reads with
  | case1 t reads f u found => rw [receive,found]
  | case2 t reads f u found => rw [receive,found]
  | case3 t reads u found closed =>
    rw [receive,found]
    exact if_pos closed
  | case4 t u found opened =>
    obtain ⟨rfl,_⟩ := nextFrame_short found
    rfl
  | case5 t u found opened rest ih =>
    rw [List.cons_append,receive,found]
    exact (if_neg opened).trans ih
  | case6 t u found opened rest =>
    rw [List.cons_append,receive,found]
    exact if_neg opened
  | case7 t u found opened x b rest ih =>
    rw [← again_append] at ih
    rw [List.cons_append,receive,found]
    exact (if_neg opened).trans ih
  | case8 t u found opened message rest =>
    rw [List.cons_append,receive,found]
    exact if_neg opened

def calls : Nat → Tcp → List Read → List Received × List Read × Tcp
  | 0,t,left => ([],left,t)
  | n+1,t,left =>
    let (r,left,t) := t.receive left
    let (rs,left,t) := calls n t left
    (r::rs,left,t)

def hungUp : Fault := .connection "Connection closed by device"

theorem receive_closed (off : t.connected = false) (short : Short t.buffer.bytes) (reads : List Read) :
    t.receive reads = (.fault closedFault,reads,t) := by
  rw [receive,short.nextFrame]
  exact if_pos (by simp [off])

theorem receive_end (on : t.connected = true) (short : Short t.buffer.bytes) (more : List Read) :
    t.receive (.data []::more) = (.fault hungUp,more,{t with connected:=false}) := by
  rw [receive,short.nextFrame]
  exact if_neg (by simp [on])

theorem calls_closed (off : t.connected = false) (short : Short t.buffer.bytes) (n : Nat) (reads : List Read) :
    calls n t reads = (List.replicate n (.fault closedFault),reads,t) := by
  induction n with
  | zero => rfl
  | succ n ih => simp only [calls,receive_closed off short,ih,List.replicate_succ]

inductive Given : Received → Prop where
  | frame {f : Bytes} (whole : Whole f) : Given (.frame f)
  | junk {n : Nat} (outside : n < 8 ∨ 260 < n) : Given (.fault (misleading n))

structure Finishes (t : Tcp) (reads more : List Read) (rs : List Received) (f : Fault) (left : List Read) (u : Tcp) : Prop where
  called : calls (rs.length+1) t (reads ++ .data []::more) = (rs ++ [.fault f],left ++ more,u)
  transport : f.isTransport = true
  given : ∀ r ∈ rs, Given r
  few : 6*rs.length ≤ held reads t
  off : u.connected = false
  short : Short u.buffer.bytes

theorem Finishes.after {r : Received} {more next : List Read} {rs : List Received} {g : Fault} {v : Tcp}
    (received : t.receive (reads ++ .data []::more) = (r,left ++ .data []::more,u)) (handed : Given r)
    (used : held left u+6 ≤ held reads t) (finishes : Finishes u left more rs g next v) :
    Finishes t reads more (r::rs) g next v := by
  obtain ⟨called,transport,others,few,off,short⟩ := finishes
  refine ⟨?_,transport,List.forall_mem_cons.mpr ⟨handed,others⟩,?_,off,short⟩
  · rw [List.length_cons,calls,received]
    simp only [called]
    rfl
  · rw [List.length_cons]
    omega

theorem finishes (t : Tcp) (reads : List Read) : ∃ rs f left u, ∀ more, Finishes t reads more rs f left u := by
  induction size : held reads t using Nat.strongRecOn generalizing t reads with
  | _ n ih =>
    have gives := receive_gives t reads
    have goes := receive_append t reads
    generalize t.receive reads = r at gives goes
    cases gives with
    | @frame f left u whole octets =>
      have used := congrArg List.length octets
      have least := whole.least
      have less : held left u+6 ≤ held reads t := by
        simp only [List.length_append] at used
        simp only [held]
        omega
      obtain ⟨rs,g,next,v,finishes⟩ := ih _ (by omega) u left rfl
      exact ⟨_,g,next,v,fun more => (finishes more).after (goes _) (.frame whole) less⟩
    | @junk m lost left u misled cleared octets =>
      have used := congrArg List.length octets
      have least := misled.six
      have less : held left u+6 ≤ held reads t := by
        simp only [List.length_append] at used
        simp only [held,cleared,List.length_nil]
        omega
      obtain ⟨rs,g,next,v,finishes⟩ := ih _ (by omega) u left rfl
      exact ⟨_,g,next,v,fun more => (finishes more).after (goes _) (.junk misled.2) less⟩
    | @ended f left u transport off short octets =>
      refine ⟨[],f,left ++ [.data []],u,fun more => ⟨?_,transport,List.forall_mem_nil _,Nat.zero_le _,off,short⟩⟩
      simp only [List.length_nil,calls,goes,List.append_assoc]
      rfl
    | @pending u short on filled octets =>
      refine ⟨[],hungUp,[],{u with connected:=false},fun more => ⟨?_,rfl,List.forall_mem_nil _,Nat.zero_le _,rfl,short⟩⟩
      simp only [List.length_nil,calls,goes,receive_end on short]
      rfl

theorem finishes_framed {fs : List Bytes} {part missing : Bytes} (carries : Carries (fs ++ [part ++ missing]) missing reads t)
    (unfinished : missing ≠ []) (more : List Read) : ∃ u, u.connected = false ∧
      calls (fs.length+1) t (reads ++ .data []::more) = (fs.map .frame ++ [.fault hungUp],more,u) := by
  induction fs generalizing t reads with
  | nil =>
    have yields := receive_yields carries
    have gives := receive_gives t reads
    have goes := receive_append t reads
    generalize t.receive reads = r at yields gives goes
    cases yields with
    | frame first carries =>
      cases first
      have nothing := carries.octets
      rw [List.flatten_nil,List.append_eq_nil_iff] at nothing
      exact absurd nothing.2 unfinished
    | @pending u carries short => cases gives with
      | pending short on =>
        refine ⟨{u with connected:=false},rfl,?_⟩
        simp only [List.length_nil,calls,goes,receive_end on short]
        rfl
  | cons f fs ih =>
    have yields := receive_yields carries
    have goes := receive_append t reads
    generalize t.receive reads = r at yields goes
    cases yields with
    | @frame g later left u first carries =>
      cases first
      obtain ⟨v,off,called⟩ := ih carries
      refine ⟨v,off,?_⟩
      simp only [List.length_cons,calls,goes,called]
      rfl
    | @pending u carries short =>
      have behind : missing.length ≤ (fs ++ [part ++ missing]).flatten.length := by simp; omega
      exact absurd (front_there carries.octets behind) (Nat.not_le.mpr (short f rfl))

-- What calls come to on a socket whose peer hangs up behind these reads: whoever reads on finds
-- the end again.
structure Concludes (t : Tcp) (reads : List Read) : Prop where
  -- a call is over with the end at the latest, and it never takes more reads than a frame has octets
  returns : ∀ more, (t.receive (reads ++ .data []::more)).1 ≠ .pending
  busy : (t.receive reads).1 = .pending → reads.countP Read.carries < 260
  -- frames, and faults for headers that cannot be right; then a fault of the line, from then on always
  ends : ∃ rs f left u, (∀ more, Finishes t reads more rs f left u) ∧
    ∀ n more, calls n u more = (List.replicate n (.fault closedFault),more,u)
  -- frames alone, the last of them not all there
  framed : ∀ (fs : List Bytes) (part missing : Bytes), t.connected = true → (∀ r ∈ reads, r.Brings) → (∀ f ∈ fs, Whole f) →
    Whole (part ++ missing) → missing ≠ [] → t.buffer.bytes ++ unread reads = fs.flatten ++ part → ∀ more,
      ∃ u, u.connected = false ∧ calls (fs.length+1) t (reads ++ .data []::more) = (fs.map .frame ++ [.fault hungUp],more,u)

theorem concludes (t : Tcp) (reads : List Read) : Concludes t reads := by
  refine ⟨?_,?_,?_,?_⟩
  · intro more pending
    have gives := receive_gives t (reads ++ .data []::more)
    generalize t.receive (reads ++ .data []::more) = r at gives pending
    cases gives with
    | pending short on filled => exact filled (.data []) (by simp) rfl
    | _ => cases pending
  · intro pending
    have gives := receive_gives t reads
    generalize t.receive reads = r at gives pending
    cases gives with
    | pending short on filled octets =>
      have each := carries_le filled
      have all := congrArg List.length octets
      have few := short.few
      rw [List.length_append] at all
      omega
    | _ => cases pending
  · obtain ⟨rs,f,left,u,finishes⟩ := finishes t reads
    exact ⟨rs,f,left,u,finishes,calls_closed (finishes []).off (finishes []).short⟩
  · intro fs part missing on brings whole last unfinished octets more
    have carries : Carries (fs ++ [part ++ missing]) missing reads t := by
      refine ⟨?_,on,brings,?_⟩
      · exact List.forall_mem_append.mpr ⟨whole,List.forall_mem_singleton.mpr last⟩
      · rw [octets,List.flatten_append,List.flatten_singleton,List.append_assoc]
    exact finishes_framed carries unfinished more

end Tcp

end ModbusMaster.Stream
