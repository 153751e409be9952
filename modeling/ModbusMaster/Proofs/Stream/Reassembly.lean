import ModbusMaster.Stream.Tcp
namespace ModbusMaster.Stream

-- However the octets of frames are cut on their way over a socket, a receiver gives the frames.

def Read.octets : Read → Bytes
  | data b => b
  | _ => []

def unread (reads : List Read) : Bytes := reads.flatMap Read.octets

def Read.Brings (r : Read) : Prop := ∃ x b, r = .data (x::b)

theorem unread_again (left : Bytes) (rest : List Read) : unread (again left rest) = left ++ unread rest := by
  unfold again
  split
  · rename_i none
    rw [List.isEmpty_iff.mp none,List.nil_append]
  · rfl

theorem again_brings {left : Bytes} {rest : List Read} (brings : ∀ r ∈ rest, r.Brings) : ∀ r ∈ again left rest, r.Brings := by
  unfold again
  split
  · exact brings
  · rename_i some
    intro r member
    rcases List.mem_cons.mp member with rfl | later
    · cases left with
      | nil => exact absurd rfl some
      | cons x b => exact ⟨x,b,rfl⟩
    · exact brings r later

theorem part_shorter {f b rest : Bytes} (part : f = b ++ rest) (missing : rest ≠ []) : b.length < f.length := by
  have some := List.length_pos_iff.mpr missing
  rw [part,List.length_append]
  omega

theorem front_cases {b behind f : Bytes} {later : List Bytes} (octets : b ++ behind = (f::later).flatten) :
    (∃ rest, b = f ++ rest ∧ rest ++ behind = later.flatten) ∨ ∃ rest, f = b ++ rest ∧ rest ≠ [] := by
  rw [List.flatten_cons] at octets
  rcases List.append_eq_append_iff.mp octets with ⟨rest,part,left⟩ | ⟨rest,begins,left⟩
  · by_cases missing : rest = []
    · subst missing
      exact .inl ⟨[],by rw [List.append_nil,part,List.append_nil],left⟩
    · exact .inr ⟨rest,part,missing⟩
  · exact .inl ⟨rest,begins,left.symm⟩

-- With nothing left to read a frame is there if all that is to come is behind it.
theorem front_there {b coming f : Bytes} {later : List Bytes} (octets : b ++ unread [] ++ coming = (f::later).flatten)
    (behind : coming.length ≤ later.flatten.length) : f.length ≤ b.length := by
  have lengths := congrArg List.length octets
  rw [List.flatten_cons,List.length_append,List.length_append,List.length_append] at lengths
  have nothing : (unread []).length = 0 := rfl
  omega

namespace Tcp
variable {t : Tcp} {f rest coming : Bytes} {fs : List Bytes} {left : List Read}

structure Whole (f : Bytes) : Prop where
  declared : Frame.tcpLength? f = some f.length
  least : 8 ≤ f.length
  most : f.length ≤ 260

theorem tcpLength?_append {b : Bytes} {n : Nat} (known : Frame.tcpLength? b = some n) (c : Bytes) :
    Frame.tcpLength? (b ++ c) = some n := by
  unfold Frame.tcpLength? at known
  split at known
  · exact known
  · cases known

theorem Whole.allowed (whole : Whole f) : (f.length < Format.headerSize+2 || Format.maxAdu .tcp < f.length) = false := by
  have long : ¬f.length < Format.headerSize+2 := Nat.not_lt.mpr whole.least
  have short : ¬Format.maxAdu .tcp < f.length := Nat.not_lt.mpr whole.most
  simp only [long,short,decide_false,Bool.or_false]

theorem nextFrame_whole (whole : Whole f) (begins : t.buffer.bytes = f ++ rest) :
    t.nextFrame = (.ok (some f),{t with buffer:={t.buffer with bytes:=rest}}) := by
  have enough : ¬(f ++ rest).length < f.length := by
    rw [List.length_append]
    omega
  unfold nextFrame Buffer.take
  rw [begins,tcpLength?_append whole.declared rest]
  simp only [whole.allowed,enough,if_false,Bool.false_eq_true,List.take_left,List.drop_left]

theorem nextFrame_part (whole : Whole f) (part : f = t.buffer.bytes ++ rest) (missing : rest ≠ []) :
    t.nextFrame = (.ok none,t) := by
  unfold nextFrame
  cases known : Frame.tcpLength? t.buffer.bytes with
  | none => rfl
  | some n =>
    have declared := tcpLength?_append known rest
    rw [← part,whole.declared] at declared
    cases declared
    have short := part_shorter part missing
    simp only [whole.allowed,short,if_false,if_true,Bool.false_eq_true]

theorem nextFrame_none (none : t.buffer.bytes = []) : t.nextFrame = (.ok Option.none,t) := by
  rw [nextFrame,none]
  rfl

-- Frames on their way: some octets are in the buffer, others can be read, and others are still to come.
structure Carries (fs : List Bytes) (coming : Bytes) (left : List Read) (t : Tcp) : Prop where
  whole : ∀ f ∈ fs, Whole f
  connected : t.connected = true
  brings : ∀ r ∈ left, r.Brings
  octets : t.buffer.bytes ++ unread left ++ coming = fs.flatten

inductive Yields (fs : List Bytes) (coming : Bytes) : Received × List Read × Tcp → Prop where
  | frame {f : Bytes} {later : List Bytes} {left : List Read} {u : Tcp} (first : fs = f::later)
    (carries : Carries later coming left u) : Yields fs coming (.frame f,left,u)
  | pending {u : Tcp} (carries : Carries fs coming [] u) (short : ∀ f ∈ fs.head?, u.buffer.bytes.length < f.length) :
    Yields fs coming (.pending,[],u)

theorem Carries.next (carries : Carries fs coming left t) :
    (∃ f later u, fs = f::later ∧ t.nextFrame = (.ok (some f),u) ∧ Carries later coming left u) ∨
    (t.nextFrame = (.ok none,t) ∧ ∀ f ∈ fs.head?, t.buffer.bytes.length < f.length) := by
  obtain ⟨whole,connected,brings,octets⟩ := carries
  cases fs with
  | nil =>
    have none : t.buffer.bytes = [] := by simp_all
    exact .inr ⟨nextFrame_none none,by simp⟩
  | cons f later =>
    have first := whole f List.mem_cons_self
    have others : ∀ g ∈ later, Whole g := fun g member => whole g (List.mem_cons_of_mem _ member)
    rw [List.append_assoc] at octets
    rcases front_cases octets with ⟨rest,begins,behind⟩ | ⟨rest,part,missing⟩
    · refine .inl ⟨f,later,_,rfl,nextFrame_whole first begins,others,connected,brings,?_⟩
      rw [← behind,List.append_assoc]
    · refine .inr ⟨nextFrame_part first part missing,?_⟩
      intro g same
      cases Option.some.inj same
      exact part_shorter part missing

theorem receive_yields (carries : Carries fs coming left t) : Yields fs coming (t.receive left) := by
  fun_induction receive t left with
  | case1 t reads f u found =>
    rcases carries.next with ⟨_,_,_,_,found',_⟩ | ⟨found',_⟩ <;> cases found.symm.trans found'
  | case2 t reads f u found =>
    rcases carries.next with ⟨g,later,v,first,found',carries⟩ | ⟨found',_⟩
    · cases found.symm.trans found'
      exact .frame first ⟨carries.whole,carries.connected,carries.brings,carries.octets⟩
    · cases found.symm.trans found'
  | case3 t reads u found closed =>
    rcases carries.next with ⟨_,_,_,_,found',_⟩ | ⟨found',_⟩ <;> cases found.symm.trans found'
    rw [carries.connected] at closed
    cases closed
  | case4 t u found =>
    rcases carries.next with ⟨_,_,_,_,found',_⟩ | ⟨found',short⟩ <;> cases found.symm.trans found'
    exact .pending carries short
  | case5 t u found opened rest ih =>
    obtain ⟨_,_,wrong⟩ := carries.brings _ List.mem_cons_self
    cases wrong
  | case6 t u found opened rest =>
    obtain ⟨_,_,wrong⟩ := carries.brings _ List.mem_cons_self
    cases wrong
  | case7 t u found opened x b rest ih =>
    rcases carries.next with ⟨_,_,_,_,found',_⟩ | ⟨found',_⟩ <;> cases found.symm.trans found'
    apply ih
    refine ⟨carries.whole,carries.connected,again_brings fun r member => carries.brings r (List.mem_cons_of_mem _ member),?_⟩
    have taken := t.buffer.accept_bytes (x::b)
    rw [unread_again,← List.append_assoc,taken,List.append_assoc t.buffer.bytes]
    exact carries.octets
  | case8 t u found opened message rest =>
    obtain ⟨_,_,wrong⟩ := carries.brings _ List.mem_cons_self
    cases wrong

-- Calls one after the other. Before each of them more octets arrive, in chunks; a call that finds
-- no frame in all that is there is given up, and the next one goes on from what it has read.
def receives : Tcp → List Read → List (List Bytes) → List Received × List Read × Tcp
  | t,left,[] => ([],left,t)
  | t,left,chunks::arrivals =>
    let (r,left,t) := t.receive (left ++ chunks.map .data)
    let (rs,left,t) := receives t left arrivals
    (r::rs,left,t)

def delivered (rs : List Received) : List Bytes := rs.filterMap fun
  | .frame f => some f
  | _ => none

-- What the calls are to give: the next frame once as many octets are there as it has. Of the octets
-- before each call `n` are there already, and so many arrive as the list says.
def handOver : List Bytes → Nat → List Nat → List Received
  | _,_,[] => []
  | [],n,more::counts => .pending::handOver [] (n+more) counts
  | f::fs,n,more::counts =>
    if f.length ≤ n+more then .frame f::handOver fs (n+more-f.length) counts
    else .pending::handOver (f::fs) (n+more) counts

theorem receives_append (t : Tcp) (left : List Read) (first second : List (List Bytes)) :
    receives t left (first ++ second) =
      let (rs,left,t) := receives t left first
      let (more,left,t) := receives t left second
      (rs ++ more,left,t) := by
  induction first generalizing t left with
  | nil => rfl
  | cons chunks first ih =>
    simp only [List.cons_append,receives]
    rw [ih]

theorem unread_arrive (left : List Read) (chunks : List Bytes) :
    unread (left ++ chunks.map .data) = unread left ++ chunks.flatten := by
  have arrived : unread (chunks.map .data) = chunks.flatten := by
    rw [unread,List.flatMap_map]
    exact List.flatMap_id
  rw [← arrived]
  exact List.flatMap_append

theorem Carries.arrive {chunks : List Bytes} (carries : Carries fs (chunks.flatten ++ coming) left t)
    (filled : ∀ c ∈ chunks, c ≠ []) : Carries fs coming (left ++ chunks.map .data) t := by
  obtain ⟨whole,connected,brings,octets⟩ := carries
  refine ⟨whole,connected,?_,?_⟩
  · intro r member
    rcases List.mem_append.mp member with old | new
    · exact brings r old
    · obtain ⟨c,among,rfl⟩ := List.mem_map.mp new
      obtain ⟨x,b,rfl⟩ := List.exists_cons_of_ne_nil (filled c among)
      exact ⟨x,b,rfl⟩
  · rw [← octets,unread_arrive]
    simp only [List.append_assoc]

def held (left : List Read) (t : Tcp) : Nat := t.buffer.bytes.length+(unread left).length

theorem held_arrive (left : List Read) (chunks : List Bytes) (t : Tcp) :
    held (left ++ chunks.map .data) t = held left t+chunks.flatten.length := by
  rw [held,unread_arrive,List.length_append,held,Nat.add_assoc]

theorem Carries.count (carries : Carries fs coming left t) : held left t+coming.length = fs.flatten.length := by
  rw [← carries.octets,List.length_append,List.length_append,held]

theorem receives_carries {arrivals : List (List Bytes)} (carries : Carries fs (arrivals.flatten.flatten ++ coming) left t)
    (filled : ∀ chunks ∈ arrivals, ∀ c ∈ chunks, c ≠ []) : ∃ later, fs = delivered (receives t left arrivals).1 ++ later ∧
      Carries later coming (receives t left arrivals).2.1 (receives t left arrivals).2.2 := by
  induction arrivals generalizing fs left t with
  | nil => exact ⟨fs,rfl,carries⟩
  | cons chunks arrivals ih =>
    rw [List.flatten_cons,List.flatten_append,List.append_assoc] at carries
    have given := receive_yields (carries.arrive (filled chunks List.mem_cons_self))
    have others : ∀ chunks ∈ arrivals, ∀ c ∈ chunks, c ≠ [] := fun c member => filled c (List.mem_cons_of_mem _ member)
    simp only [receives]
    generalize t.receive (left ++ chunks.map .data) = got at given ⊢
    cases given with
    | frame first carries =>
      obtain ⟨later,same,carries⟩ := ih carries others
      exact ⟨later,by rw [first,same]; rfl,carries⟩
    | pending carries => exact ih carries others

theorem receives_handOver {arrivals : List (List Bytes)} (carries : Carries fs (arrivals.flatten.flatten ++ coming) left t)
    (filled : ∀ chunks ∈ arrivals, ∀ c ∈ chunks, c ≠ []) : (receives t left arrivals).1 =
      handOver fs (held left t) (arrivals.map fun chunks => chunks.flatten.length) := by
  induction arrivals generalizing fs left t with
  | nil => cases fs <;> rfl
  | cons chunks arrivals ih =>
    rw [List.flatten_cons,List.flatten_append,List.append_assoc] at carries
    have arrived := carries.arrive (filled chunks List.mem_cons_self)
    have given := receive_yields arrived
    have before := arrived.count
    have others : ∀ chunks ∈ arrivals, ∀ c ∈ chunks, c ≠ [] := fun c member => filled c (List.mem_cons_of_mem _ member)
    rw [held_arrive] at before
    simp only [receives,List.map_cons]
    generalize t.receive (left ++ chunks.map .data) = got at given ⊢
    cases given with
    | @frame f later left' u first going =>
      have after := going.count
      have sum : (f::later).flatten.length = f.length+later.flatten.length := by rw [List.flatten_cons,List.length_append]
      subst first
      rw [sum] at before
      have whole : f.length ≤ held left t+chunks.flatten.length := by omega
      have rest : held left t+chunks.flatten.length-f.length = held left' u := by omega
      simp only [handOver,whole,if_true,rest,ih going others]
    | @pending u going short =>
      have after := going.count
      have same : held left t+chunks.flatten.length = held [] u := by omega
      simp only [ih going others]
      cases fs with
      | nil => rw [handOver,same]
      | cons f later =>
        have part : ¬f.length ≤ held [] u := Nat.not_le.mpr (short f rfl)
        rw [handOver,same,if_neg part]

theorem receives_pending {arrivals : List (List Bytes)} (carries : Carries fs (arrivals.flatten.flatten ++ coming) left t)
    (filled : ∀ chunks ∈ arrivals, ∀ c ∈ chunks, c ≠ []) (last : (receives t left arrivals).1.getLast? = some .pending) :
    (receives t left arrivals).2.1 = [] ∧ ∀ f later, fs = delivered (receives t left arrivals).1 ++ f::later →
      (receives t left arrivals).2.2.buffer.bytes.length < f.length := by
  rcases List.eq_nil_or_concat arrivals with rfl | ⟨before,chunks,rfl⟩
  · cases last
  · rw [List.concat_eq_append] at carries filled last ⊢
    rw [List.flatten_append,List.flatten_singleton,List.flatten_append,List.append_assoc] at carries
    obtain ⟨later,same,going⟩ := receives_carries carries fun c member => filled c (List.mem_append_left _ member)
    rw [receives_append] at last ⊢
    generalize receives t left before = run at same going last ⊢
    obtain ⟨rs,left',u⟩ := run
    dsimp only [receives] at same going last ⊢
    have given := receive_yields (going.arrive (filled chunks (List.mem_append_right _ List.mem_cons_self)))
    generalize u.receive (left' ++ chunks.map .data) = got at given last ⊢
    cases given with
    | frame => simp at last
    | pending going short =>
      refine ⟨rfl,?_⟩
      intro f rest split
      have nothing : delivered (rs ++ [.pending]) = delivered rs := by simp [delivered]
      rw [nothing] at split
      have next := List.append_cancel_left (same.symm.trans split)
      exact short f (next ▸ rfl)

theorem receives_idle (carries : Carries fs [] left t) {n : Nat} (enough : fs.length ≤ n) :
    delivered (receives t left (List.replicate n [])).1 = fs := by
  induction n generalizing fs left t with
  | zero => exact (List.eq_nil_of_length_eq_zero (Nat.le_zero.mp enough)).symm
  | succ n ih =>
    have given := receive_yields carries
    simp only [List.replicate_succ,receives,List.map_nil,List.append_nil]
    generalize t.receive left = got at given ⊢
    cases given with
    | frame first going =>
      rw [first] at enough ⊢
      exact congrArg _ (ih going (Nat.le_of_succ_le_succ enough))
    | @pending u going short =>
      cases fs with
      | nil => exact ih going (Nat.zero_le n)
      | cons f later => exact absurd (front_there going.octets (Nat.zero_le _)) (Nat.not_le.mpr (short f rfl))

theorem delivered_append (first second : List Received) : delivered (first ++ second) = delivered first ++ delivered second :=
  List.filterMap_append

structure Reassembles (fs : List Bytes) (arrivals : List (List Bytes)) (coming : Bytes) : Prop where
  each : (receives opened [] arrivals).1 = handOver fs 0 (arrivals.map fun chunks => chunks.flatten.length)
  ordered : delivered (receives opened [] arrivals).1 <+: fs
  -- octets that have come were given in a frame, are in the buffer, or are still to be read
  kept : (delivered (receives opened [] arrivals).1).flatten ++ (receives opened [] arrivals).2.2.buffer.bytes ++
    unread (receives opened [] arrivals).2.1 = arrivals.flatten.flatten
  -- after a call that was given up, all of them are in the buffer, and they are less than a frame
  buffered : (receives opened [] arrivals).1.getLast? = some .pending → (receives opened [] arrivals).2.1 = [] ∧
    ∀ f later, fs = delivered (receives opened [] arrivals).1 ++ f::later →
      (receives opened [] arrivals).2.2.buffer.bytes.length < f.length
  -- once all have come, as many calls as there are frames are enough for them
  complete : coming = [] → ∀ n, fs.length ≤ n → delivered (receives opened [] (arrivals ++ List.replicate n [])).1 = fs

theorem frames_reassembled {arrivals : List (List Bytes)} (whole : ∀ f ∈ fs, Whole f)
    (filled : ∀ chunks ∈ arrivals, ∀ c ∈ chunks, c ≠ []) (cut : arrivals.flatten.flatten ++ coming = fs.flatten) :
    Reassembles fs arrivals coming := by
  have start : Carries fs (arrivals.flatten.flatten ++ coming) [] opened := ⟨whole,rfl,List.forall_mem_nil _,cut⟩
  obtain ⟨later,same,going⟩ := receives_carries start filled
  refine ⟨receives_handOver start filled,⟨later,same.symm⟩,?_,receives_pending start filled,?_⟩
  · have rest := going.octets
    have sum : fs.flatten = (delivered (receives opened [] arrivals).1).flatten ++ later.flatten := by
      rw [← List.flatten_append,← same]
    rw [sum,← rest,← List.append_assoc,← List.append_assoc] at cut
    exact (List.append_cancel_right cut).symm
  · intro all n enough
    subst all
    rw [receives_append]
    have counted := congrArg List.length same
    rw [List.length_append] at counted
    have given := receives_idle going (show later.length ≤ n by omega)
    rw [delivered_append,given]
    exact same.symm

-- Two answers, the first cut inside its header and the second cut behind its unit, and a call too early.
theorem frames_reassembled_cut :
    Reassembles [[0,1,0,0,0,5,1,3,2,0,42],[0,2,0,0,0,3,1,0x83,2]]
      [[[0,1,0]],[[0,0,5,1,3,2,0,42,0,2,0,0,0,3,1],[0x83,2]],[]] [] ∧
    (receives opened [] [[[0,1,0]],[[0,0,5,1,3,2,0,42,0,2,0,0,0,3,1],[0x83,2]],[]]).1 =
      [.pending,.frame [0,1,0,0,0,5,1,3,2,0,42],.frame [0,2,0,0,0,3,1,0x83,2]] := by
  have whole : ∀ f ∈ [[0,1,0,0,0,5,1,3,2,0,42],[0,2,0,0,0,3,1,0x83,2]], Whole f := by
    intro f member
    simp only [List.mem_cons,List.not_mem_nil,or_false] at member
    rcases member with rfl | rfl <;> exact ⟨rfl,by decide,by decide⟩
  have reassembles : Reassembles _ [[[0,1,0]],[[0,0,5,1,3,2,0,42,0,2,0,0,0,3,1],[0x83,2]],[]] [] :=
    frames_reassembled whole (by decide) rfl
  exact ⟨reassembles,reassembles.each⟩

end Tcp
end ModbusMaster.Stream
