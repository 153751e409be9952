import ModbusMaster.Proofs.Stream.Ending
import ModbusMaster.Proofs.Stream.Serial
namespace ModbusMaster.Stream

-- What becomes of receivers whose peer has hung up, so that every further read is one of nothing:
-- on a socket the calls come to an end, on a serial line one of them never does.

namespace Rtu
variable {t u : Rtu} {reads left : List Read}

theorem rtuLength?_pos {b : Bytes} {n : Nat} (known : Frame.rtuLength? b = some n) : 0 < n ∧ b ≠ [] := by
  match b with
  | [] => cases known
  | [_] => cases known
  | _::g::values =>
    refine ⟨?_,List.cons_ne_nil _ _⟩
    simp only [Frame.rtuLength?] at known
    split at known
    · cases known
      decide
    · split at known
      · obtain ⟨count,_,rfl⟩ := Option.map_eq_some_iff.mp known
        omega
      · split at known
        · cases known
          decide
        · cases known

inductive Next (t : Rtu) : Except Fault (Option Bytes) × Rtu → Prop where
  | frame {f rest : Bytes} (some : f ≠ []) (begins : t.buffer.bytes = f ++ rest) :
      Next t (.ok (.some f),{t with buffer:={t.buffer with bytes:=rest}})
  | large (some : t.buffer.bytes ≠ []) : Next t (.error t.tooLarge.1,t.tooLarge.2)
  | short : Next t (.ok none,t)

theorem nextFrame_next (t : Rtu) : Next t t.nextFrame := by
  unfold nextFrame
  cases known : Frame.rtuLength? t.buffer.bytes with
  | none => exact .short
  | some n =>
    obtain ⟨least,some⟩ := rtuLength?_pos known
    dsimp only
    split
    · exact .large some
    · split
      · exact .short
      · rename_i enough
        have length : (t.buffer.bytes.take n).length = n := List.length_take_of_le (Nat.not_lt.mp enough)
        refine .frame (List.length_pos_iff.mp ?_) (List.take_append_drop n t.buffer.bytes).symm
        show 0 < (t.buffer.bytes.take n).length
        rw [length]
        exact least

theorem nextFrame_same (found : t.nextFrame = (.ok none,u)) : u = t := by
  have next := nextFrame_next t
  rw [found] at next
  cases next
  rfl

theorem receive_append (t : Rtu) (reads more : List Read) : t.receive (reads ++ more) =
    match t.receive reads with
    | (.pending,_,u) => u.receive more
    | (r,left,u) => (r,left ++ more,u) := by
  fun_induction receive t reads with
  | case1 t reads f u found => rw [receive,found]
  | case2 t reads f u found => rw [receive,found]
  | case3 t reads u found closed =>
    rw [receive,found]
    exact if_pos closed
  | case4 t u found opened =>
    cases nextFrame_same found
    rfl
  | case5 t u found opened rest empty ih =>
    cases nextFrame_same found
    rw [List.cons_append,receive,found]
    exact (if_neg opened).trans ((if_pos empty).trans ih)
  | case6 t u found opened rest some frame buffer taken =>
    cases nextFrame_same found
    rw [List.cons_append,receive,found]
    refine (if_neg opened).trans ((if_neg some).trans ?_)
    simp only [taken]
  | case7 t v found opened b rest left w flooded f u large =>
    cases nextFrame_same found
    rw [List.cons_append,receive,found]
    refine (if_neg opened).trans ((if_pos flooded).trans ?_)
    rw [again_append]
    exact congrArg (fun r : Fault × Rtu => (Received.fault r.1,left ++ more,r.2)) large
  | case8 t u found opened b rest left w calm ih =>
    cases nextFrame_same found
    rw [← again_append] at ih
    rw [List.cons_append,receive,found]
    exact (if_neg opened).trans ((if_neg calm).trans ih)
  | case9 t u found opened message rest stats =>
    cases nextFrame_same found
    rw [List.cons_append,receive,found]
    exact if_neg opened

-- A call that has not come to an end has made few reads that brought something: behind the first of
-- them the buffer may not become longer than a frame.
theorem receive_pending (pending : (t.receive reads).1 = .pending) (filled : ∀ r ∈ reads, r ≠ .data []) :
    reads.countP Read.carries ≤ 256 ∧
      (t.buffer.bytes ≠ [] → reads.countP Read.carries = 0 ∨ reads.countP Read.carries+t.buffer.bytes.length ≤ 256) := by
  fun_induction receive t reads with
  | case1 => cases pending
  | case2 => cases pending
  | case3 => cases pending
  | case4 => exact ⟨Nat.zero_le _,fun _ => .inl rfl⟩
  | case5 t u found opened rest empty ih =>
    cases nextFrame_same found
    exact ih pending (List.forall_mem_cons.mp filled).2
  | case6 => cases pending
  | case7 => cases pending
  | case8 t u found opened b rest left w calm ih =>
    cases nextFrame_same found
    obtain ⟨first,others⟩ := List.forall_mem_cons.mp filled
    have more := length_accept_some t.buffer (mt (congrArg Read.data) first)
    obtain ⟨_,bound⟩ := ih pending (again_filled others)
    have some : w.buffer.bytes ≠ [] := by
      rw [← List.length_pos_iff]
      exact Nat.lt_of_le_of_lt (Nat.zero_le _) more
    have later : rest.countP Read.carries ≤ left.countP Read.carries := carries_again _ rest
    have count : (Read.data b::rest).countP Read.carries = rest.countP Read.carries+1 := List.countP_cons_of_pos rfl
    have held : w.buffer.bytes.length = (t.buffer.accept b).1.bytes.length := rfl
    rw [count]
    have few := bound some
    refine ⟨by omega,fun part => .inr ?_⟩
    have dry := mt floods_iff.mpr calm
    have most : w.buffer.bytes.length ≤ 256 := Nat.not_lt.mp fun flood => dry ⟨part,flood⟩
    omega
  | case9 => cases pending

theorem receive_failed (t : Rtu) (m : String) (more : List Read) : (t.receive (.failed m::more)).1 ≠ .pending := by
  rw [receive]
  split
  · simp
  · simp
  · split <;> simp

theorem nextFrame_none_iff : t.nextFrame = (.ok none,t) ↔
    ∀ n, Frame.rtuLength? t.buffer.bytes = some n → n ≤ 256 ∧ t.buffer.bytes.length < n := by
  unfold nextFrame
  cases known : Frame.rtuLength? t.buffer.bytes with
  | none => simp
  | some n =>
    dsimp only
    split
    · rename_i large
      have above : 256 < n := large
      simp
      omega
    · rename_i fits
      have most : n ≤ 256 := Nat.not_lt.mp fits
      split
      · rename_i missing
        simp [most,missing]
      · rename_i enough
        simp
        omega

theorem accept_nothing (b : Buffer) : (b.accept []).1.bytes = b.bytes ∧ (b.accept []).2 = [] := by
  obtain ⟨took,bytes,nothing⟩ := accept_takes b []
  obtain ⟨rfl,left⟩ := List.append_eq_nil_iff.mp nothing
  exact ⟨bytes.trans (List.append_nil _),left⟩

-- A line at its end brings nothing, and is not silent either: a call with a part of a frame reads on.
theorem receive_unheard (short : t.nextFrame = (.ok none,t)) (on : t.connected = true) (few : t.buffer.bytes.length ≤ 256)
    (n : Nat) : (t.receive (List.replicate n (.data []))).1 = .pending := by
  induction n generalizing t with
  | zero =>
    rw [List.replicate_zero,receive,short]
    simp [on]
  | succ n ih =>
    obtain ⟨same,left⟩ := accept_nothing t.buffer
    have calm : ¬t.Floods [] := by
      rintro ⟨_,flood⟩
      rw [same] at flood
      omega
    have kept : (t.read []).buffer.bytes = t.buffer.bytes := same
    rw [List.replicate_succ,receive_calm short on calm,left]
    refine ih ?_ on (by rw [kept]; exact few)
    rw [nextFrame_none_iff,kept]
    exact nextFrame_none_iff.mp short

def work (left : List Read) (t : Rtu) : Nat := Read.total left+t.buffer.bytes.length

theorem work_read (t : Rtu) (b : Bytes) (rest : List Read) :
    work (again (t.buffer.accept b).2 rest) (t.read b) ≤ work (.data b::rest) t := by
  obtain ⟨took,bytes,all⟩ := accept_takes t.buffer b
  have parts := congrArg List.length all
  have now : (t.read b).buffer.bytes.length = t.buffer.bytes.length+took.length := by
    rw [read,bytes,List.length_append]
  have before : Read.total (.data b::rest) = b.length+1+Read.total rest := rfl
  have after : Read.total (again (t.buffer.accept b).2 rest) ≤ (t.buffer.accept b).2.length+1+Read.total rest := by
    unfold again
    split
    · omega
    · exact Nat.le_refl _
  rw [List.length_append] at parts
  unfold work
  omega

-- What a call on an open line gives when it is over. A fault of the line is that of a read.
inductive Given (reads : List Read) : Received → Prop where
  | frame (f : Bytes) : Given reads (.frame f)
  | oversized : Given reads oversized
  | failed {m : String} (among : .failed m ∈ reads) : Given reads (.fault (.io ("Serial read error: " ++ m)))

theorem Given.mono {others : List Read} {r : Received} (given : Given others r)
    (among : ∀ m, .failed m ∈ others → .failed m ∈ reads) : Given reads r := by
  cases given with
  | frame f => exact .frame f
  | oversized => exact .oversized
  | failed failed => exact .failed (among _ failed)

inductive Gives (t : Rtu) (reads : List Read) : Received × List Read × Rtu → Prop where
  | ended {r : Received} {left : List Read} {u : Rtu} (given : Given reads r) (on : u.connected = true)
      (less : work left u < work reads t) (among : ∀ m, .failed m ∈ left → .failed m ∈ reads) : Gives t reads (r,left,u)
  | pending {u : Rtu} (on : u.connected = true) (short : u.nextFrame = (.ok none,u)) : Gives t reads (.pending,[],u)

theorem Gives.congr {others : List Read} {res : Received × List Read × Rtu} (gives : Gives u others res)
    (fewer : work others u ≤ work reads t) (among : ∀ m, .failed m ∈ others → .failed m ∈ reads) : Gives t reads res := by
  cases gives with
  | ended given on less those =>
    exact .ended (given.mono among) on (Nat.lt_of_lt_of_le less fewer) fun m failed => among m (those m failed)
  | pending on short => exact .pending on short

theorem failed_again {b : Bytes} {left : Bytes} {rest : List Read} {m : String} (failed : .failed m ∈ again left rest) :
    .failed m ∈ Read.data b::rest := by
  unfold again at failed
  split at failed
  · exact List.mem_cons_of_mem _ failed
  · exact (List.mem_cons.mp failed).elim nofun (List.mem_cons_of_mem _)

theorem receive_gives (on : t.connected = true) (reads : List Read) : Gives t reads (t.receive reads) := by
  fun_induction receive t reads with
  | case1 t reads f u found =>
    have next := nextFrame_next t
    rw [found] at next
    cases next with
    | large some =>
      refine .ended .oversized on ?_ fun _ => id
      have filled := List.length_pos_iff.mpr some
      simp only [work,tooLarge,Buffer.clear,List.length_nil]
      omega
  | case2 t reads f u found =>
    have next := nextFrame_next t
    rw [found] at next
    cases next with
    | frame some begins =>
      refine .ended (.frame f) on ?_ fun _ => id
      have filled := List.length_pos_iff.mpr some
      simp only [work,deliver,begins,List.length_append]
      omega
  | case3 t reads u found closed =>
    cases nextFrame_same found
    simp [on] at closed
  | case4 t u found opened =>
    cases nextFrame_same found
    exact .pending on found
  | case5 t u found opened rest empty ih =>
    cases nextFrame_same found
    refine (ih on).congr ?_ fun m => List.mem_cons_of_mem _
    simp only [work,Read.total,List.foldr_cons]
    omega
  | case6 t u found opened rest some frame buffer taken =>
    cases nextFrame_same found
    cases taken
    refine .ended (.frame _) on ?_ fun m => List.mem_cons_of_mem _
    simp only [work,deliver,Read.total,List.foldr_cons,Read.size,List.drop_length,List.length_nil]
    omega
  | case7 t v found opened b rest left w flooded f u large =>
    cases nextFrame_same found
    cases large
    refine .ended .oversized on ?_ fun m => failed_again
    have less : Read.total left < Read.total (.data b::rest) := total_again t.buffer b rest
    simp only [work,Buffer.clear,List.length_nil]
    omega
  | case8 t u found opened b rest left w calm ih =>
    cases nextFrame_same found
    exact (ih on).congr (work_read t b rest) fun m => failed_again
  | case9 t u found opened message rest stats =>
    cases nextFrame_same found
    refine .ended (.failed List.mem_cons_self) on ?_ fun m => List.mem_cons_of_mem _
    simp only [work,Read.total,List.foldr_cons,Read.size]
    omega

-- The calls up to the one that never comes to an end, `rs` before it: the first `n` reads of nothing can
-- still end a call, those behind them do not.
structure Stalls (t : Rtu) (reads : List Read) (rs : List Received) (n : Nat) : Prop where
  called : ∀ more, (calls (rs.length+1) t (reads ++ List.replicate (n+more) (.data []))).1 = rs ++ [.pending]
  given : ∀ r ∈ rs, Given reads r
  few : n ≤ 1

theorem Stalls.after {r : Received} {rs : List Received} {n : Nat} (stalls : Stalls u left rs n) (given : Given reads r)
    (received : ∀ more, t.receive (reads ++ more) = (r,left ++ more,u))
    (among : ∀ m, .failed m ∈ left → .failed m ∈ reads) : Stalls t reads (r::rs) n := by
  refine ⟨fun more => ?_,List.forall_mem_cons.mpr ⟨given,fun o member => (stalls.given o member).mono among⟩,stalls.few⟩
  rw [List.length_cons,calls,received]
  exact congrArg (List.cons r) (stalls.called more)

theorem stalls (on : t.connected = true) (reads : List Read) : ∃ rs n, Stalls t reads rs n := by
  induction size : work reads t using Nat.strongRecOn generalizing t reads with
  | _ n ih =>
    have gives := receive_gives on reads
    have goes := receive_append t reads
    generalize t.receive reads = r at gives goes
    cases gives with
    | @ended r left u given on less among =>
      obtain ⟨rs,n,stalls⟩ := ih _ (by omega) on left rfl
      refine ⟨_,n,stalls.after given (fun more => ?_) among⟩
      have ended := goes more
      cases given <;> exact ended
    | @pending u on short =>
      by_cases few : u.buffer.bytes.length ≤ 256
      · refine ⟨[],0,fun more => ?_,List.forall_mem_nil _,Nat.zero_le _⟩
        simp only [List.length_nil,calls,goes,Nat.zero_add,receive_unheard short on few]
        rfl
      · -- octets of no known length, more than a frame can have: the read after them ends the call
        have floods : u.Floods [] := by
          refine ⟨fun none => few (by simp [none]),?_⟩
          rw [(accept_nothing u.buffer).1]
          omega
        refine ⟨[oversized],1,fun more => ?_,List.forall_mem_singleton.mpr .oversized,Nat.le_refl _⟩
        have silent := receive_unheard (nextFrame_none (t:=(u.read []).tooLarge.2) rfl) on (Nat.zero_le _) more
        rw [Nat.add_comm 1 more,List.replicate_succ]
        simp only [List.length_singleton,calls,goes,receive_floods short on floods,(accept_nothing u.buffer).2,again,
          List.isEmpty_nil,if_true,silent]
        rfl

theorem calls_unheard {fs : List Bytes} {part missing : Bytes} (carries : Carries (fs ++ [part ++ missing]) missing reads t)
    (unfinished : missing ≠ []) (calm : Calm t reads) (n : Nat) :
    (calls (fs.length+1) t (reads ++ List.replicate n (.data []))).1 = fs.map .frame ++ [.pending] := by
  induction fs generalizing t reads with
  | nil =>
    have yields := receive_yields carries calm
    have goes := receive_append t reads
    generalize t.receive reads = r at yields goes
    cases yields with
    | frame first carries =>
      cases first
      have nothing := carries.octets
      rw [List.flatten_nil,List.append_eq_nil_iff] at nothing
      exact absurd nothing.2 unfinished
    | @pending u carries none short =>
      have last := carries.whole _ List.mem_cons_self
      have few := Nat.le_trans (Nat.le_of_lt (short _ rfl)) last.most
      simp only [List.length_nil,calls,goes,receive_unheard none carries.connected few]
      rfl
  | cons f fs ih =>
    have yields := receive_yields carries calm
    have goes := receive_append t reads
    generalize t.receive reads = r at yields goes
    cases yields with
    | @frame g later left u first carries calm =>
      cases first
      rw [List.length_cons,calls,goes]
      exact congrArg (List.cons (Received.frame f)) (ih carries calm)
    | @pending u carries none short =>
      have behind : missing.length ≤ (fs ++ [part ++ missing]).flatten.length := by simp; omega
      exact absurd (front_there carries.octets behind) (Nat.not_le.mpr (short f rfl))

structure Lingers (t : Rtu) (reads : List Read) : Prop where
  -- reads that bring something or fail get on with a call
  busy : (∀ r ∈ reads, r ≠ .data []) → (t.receive reads).1 = .pending → reads.countP Read.carries ≤ 256
  broken : ∀ m more, (t.receive (reads ++ .failed m::more)).1 ≠ .pending
  -- but behind a hang-up one of them reads on for ever, and no fault of the line tells of it
  endless : t.connected = true → ∃ rs n, Stalls t reads rs n
  -- it is the one after the frames, whether a part of another one is there or not
  framed : ∀ (fs : List Bytes) (part missing : Bytes), t.connected = true → (∀ r ∈ reads, r.Brings) → (∀ f ∈ fs, Whole f) →
    Whole (part ++ missing) → missing ≠ [] → t.buffer.bytes ++ unread reads = fs.flatten ++ part → Calm t reads → ∀ n,
      (calls (fs.length+1) t (reads ++ List.replicate n (.data []))).1 = fs.map .frame ++ [.pending]

theorem lingers (t : Rtu) (reads : List Read) : Lingers t reads := by
  refine ⟨fun filled pending => (receive_pending pending filled).1,?_,fun on => stalls on reads,?_⟩
  · intro m more
    rw [receive_append]
    split
    · exact receive_failed _ m more
    · rename_i ended _
      exact ended
  · intro fs part missing on brings whole last unfinished octets calm
    have carries : Carries (fs ++ [part ++ missing]) missing reads t := by
      refine ⟨?_,on,brings,?_⟩
      · exact List.forall_mem_append.mpr ⟨whole,List.forall_mem_singleton.mpr last⟩
      · rw [octets,List.flatten_append,List.flatten_singleton,List.append_assoc]
    exact calls_unheard carries unfinished calm

end Rtu

theorem hang_ups_end_sockets_only (t : Tcp) (v : Rtu) (reads : List Read) : t.Concludes reads ∧ v.Lingers reads :=
  ⟨t.concludes reads,v.lingers reads⟩

-- Behind a part of a frame.
example : (Tcp.opened.receive [.data [0,1],.data []]).1 = .fault Tcp.hungUp ∧
    (Rtu.opened.receive (.data [1,3]::List.replicate 3 (.data []))).1 = .pending := by decide +kernel

end ModbusMaster.Stream
