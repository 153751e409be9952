import ModbusMaster.Stream.Rtu
import ModbusMaster.Proofs.Stream.Reassembly
namespace ModbusMaster.Stream.Rtu

-- Frames that come over a serial line without a silence between them. A frame is given however
-- its octets were cut, unless a read brings too much on top of a part of it.

structure Whole (f : Bytes) : Prop where
  declared : Frame.rtuLength? f = some f.length
  most : f.length ≤ 256

def calls : Nat → Rtu → List Read → List Received × List Read × Rtu
  | 0,t,left => ([],left,t)
  | n+1,t,left =>
    let (r,left,t) := t.receive left
    let (rs,left,t) := calls n t left
    (r::rs,left,t)

def oversized : Received := .fault (.frame "RTU frame too large")

-- A read that finds part of a frame in the buffer, and behind which more is there than a frame can have.
def Floods (t : Rtu) (b : Bytes) : Prop := t.buffer.bytes ≠ [] ∧ 256 < (t.buffer.accept b).1.bytes.length

def read (t : Rtu) (b : Bytes) : Rtu := {t with buffer:=(t.buffer.accept b).1}

-- The reads that are made in the course of the calls: in which state, and what there is to be read.
inductive Meets : Rtu → List Read → Rtu → Bytes → Prop where
  | here {t b rest} (none : t.nextFrame = (.ok none,t)) : Meets t (.data b::rest) t b
  | later {t b rest u c} (none : t.nextFrame = (.ok none,t)) (calm : ¬t.Floods b)
      (meets : Meets (t.read b) (again (t.buffer.accept b).2 rest) u c) : Meets t (.data b::rest) u c
  | delivered {t f v left u c} (found : t.nextFrame = (.ok (some f),v)) (meets : Meets (v.deliver f) left u c) :
      Meets t left u c

def Calm (t : Rtu) (left : List Read) : Prop := ∀ u b, Meets t left u b → ¬u.Floods b

variable {t u v : Rtu} {b c f rest coming : Bytes} {fs later : List Bytes} {left : List Read}

theorem calls_add (m n : Nat) (t : Rtu) (left : List Read) : calls (m+n) t left =
    let (rs,left,t) := calls m t left
    let (more,left,t) := calls n t left
    (rs ++ more,left,t) := by
  induction m generalizing t left with
  | zero => rw [Nat.zero_add]; rfl
  | succ m ih =>
    rw [Nat.succ_add]
    simp only [calls,ih,List.cons_append]

theorem rtuLength?_append {n : Nat} (known : Frame.rtuLength? b = some n) (c : Bytes) :
    Frame.rtuLength? (b ++ c) = some n := by
  match b with
  | [] => cases known
  | [_] => cases known
  | _::g::values =>
    simp only [Frame.rtuLength?,List.cons_append] at known ⊢
    by_cases exceptional : (g &&& Function.exceptionBit != 0) = true
    · rwa [if_pos exceptional] at known ⊢
    · rw [if_neg exceptional] at known ⊢
      split at known
      · rename_i counted
        rw [if_pos counted]
        cases values with
        | nil => cases known
        | cons count more => exact known
      · rename_i plain
        rwa [if_neg plain]

theorem nextFrame_whole (whole : Whole f) (begins : t.buffer.bytes = f ++ rest) :
    t.nextFrame = (.ok (some f),{t with buffer:={t.buffer with bytes:=rest}}) := by
  have enough : ¬(f ++ rest).length < f.length := by
    rw [List.length_append]
    omega
  have fits : ¬Format.maxAdu .rtu < f.length := Nat.not_lt.mpr whole.most
  unfold nextFrame Buffer.take
  rw [begins,rtuLength?_append whole.declared rest]
  simp only [fits,enough,if_false,List.take_left,List.drop_left]

theorem nextFrame_part (whole : Whole f) (part : f = t.buffer.bytes ++ rest) (missing : rest ≠ []) :
    t.nextFrame = (.ok none,t) := by
  unfold nextFrame
  cases known : Frame.rtuLength? t.buffer.bytes with
  | none => rfl
  | some n =>
    have declared := rtuLength?_append known rest
    rw [← part,whole.declared] at declared
    cases declared
    have fits : ¬Format.maxAdu .rtu < f.length := Nat.not_lt.mpr whole.most
    have short := part_shorter part missing
    simp only [fits,short,if_false,if_true]

theorem nextFrame_none (none : t.buffer.bytes = []) : t.nextFrame = (.ok Option.none,t) := by
  rw [nextFrame,none]
  rfl

theorem receive_found (found : t.nextFrame = (.ok (some f),v)) : t.receive left = (.frame f,left,v.deliver f) := by
  rw [receive,found]

theorem floods_iff : (!t.buffer.bytes.isEmpty && decide (Format.maxAdu .rtu < (t.buffer.accept b).1.bytes.length)) = true ↔
    t.Floods b := by
  rw [Bool.and_eq_true,Bool.not_eq_true',List.isEmpty_eq_false_iff,decide_eq_true_iff]
  rfl

theorem receive_calm (none : t.nextFrame = (.ok none,t)) (connected : t.connected = true) (calm : ¬t.Floods b)
    (rest : List Read) : t.receive (.data b::rest) = (t.read b).receive (again (t.buffer.accept b).2 rest) := by
  have on : ¬(!t.connected) = true := by simp [connected]
  rw [receive,none]
  simp only [on]
  exact if_neg (mt floods_iff.mp calm)

theorem receive_floods (none : t.nextFrame = (.ok none,t)) (connected : t.connected = true) (floods : t.Floods b)
    (rest : List Read) :
    t.receive (.data b::rest) = (oversized,again (t.buffer.accept b).2 rest,(t.read b).tooLarge.2) := by
  have on : ¬(!t.connected) = true := by simp [connected]
  rw [receive,none]
  simp only [on]
  exact if_pos (floods_iff.mpr floods)

structure Carries (fs : List Bytes) (coming : Bytes) (left : List Read) (t : Rtu) : Prop where
  whole : ∀ f ∈ fs, Whole f
  connected : t.connected = true
  brings : ∀ r ∈ left, r.Brings
  octets : t.buffer.bytes ++ unread left ++ coming = fs.flatten

theorem Carries.next (carries : Carries fs coming left t) :
    (∃ f later u, fs = f::later ∧ t.nextFrame = (.ok (some f),u) ∧ Carries later coming left (u.deliver f) ∧
      u.buffer.bytes.length+f.length = t.buffer.bytes.length) ∨
    (t.nextFrame = (.ok none,t) ∧ ∀ f ∈ fs.head?, t.buffer.bytes.length < f.length) := by
  obtain ⟨whole,connected,brings,octets⟩ := carries
  cases fs with
  | nil =>
    have none : t.buffer.bytes = [] := by simp_all
    exact .inr ⟨nextFrame_none none,by simp⟩
  | cons f later =>
    have first := whole f List.mem_cons_self
    have others : ∀ g ∈ later, Whole g := fun g member => whole g (List.mem_cons_of_mem _ member)
    rw [List.append_assoc] at octets
    rcases front_cases octets with ⟨rest,begins,behind⟩ | ⟨rest,part,missing⟩
    · refine .inl ⟨f,later,_,rfl,nextFrame_whole first begins,⟨others,connected,brings,?_⟩,?_⟩
      · rw [← behind,← List.append_assoc]
        rfl
      · rw [begins,List.length_append]
        exact Nat.add_comm _ _
    · refine .inr ⟨nextFrame_part first part missing,?_⟩
      intro g same
      cases Option.some.inj same
      exact part_shorter part missing

theorem Carries.read {rest : List Read} (carries : Carries fs coming (.data b::rest) t) :
    Carries fs coming (again (t.buffer.accept b).2 rest) (t.read b) := by
  refine ⟨carries.whole,carries.connected,again_brings fun r member => carries.brings r (List.mem_cons_of_mem _ member),?_⟩
  have taken := t.buffer.accept_bytes b
  rw [unread_again,← List.append_assoc]
  show (t.buffer.accept b).1.bytes ++ (t.buffer.accept b).2 ++ unread rest ++ coming = fs.flatten
  rw [taken,List.append_assoc t.buffer.bytes]
  exact carries.octets

inductive Yields (fs : List Bytes) (coming : Bytes) : Received × List Read × Rtu → Prop where
  | frame {f : Bytes} {later : List Bytes} {left : List Read} {u : Rtu} (first : fs = f::later)
    (carries : Carries later coming left u) (calm : Calm u left) : Yields fs coming (.frame f,left,u)
  | pending {u : Rtu} (carries : Carries fs coming [] u) (none : u.nextFrame = (.ok none,u))
    (short : ∀ f ∈ fs.head?, u.buffer.bytes.length < f.length) : Yields fs coming (.pending,[],u)

theorem receive_yields (carries : Carries fs coming left t) (calm : Calm t left) : Yields fs coming (t.receive left) := by
  induction total : Read.total left using Nat.strongRecOn generalizing left t with
  | _ n ih =>
    rcases carries.next with ⟨f,later,u,first,found,going,_⟩ | ⟨none,short⟩
    · rw [receive_found found]
      exact .frame first going fun v b meets => calm v b (.delivered found meets)
    · cases left with
      | nil =>
        rw [receive,none]
        simp only [carries.connected,Bool.not_true,Bool.false_eq_true,if_false]
        exact .pending carries none short
      | cons r rest =>
        obtain ⟨x,b,rfl⟩ := carries.brings r List.mem_cons_self
        have dry := calm t (x::b) (.here none)
        rw [receive_calm none carries.connected dry]
        exact ih _ (total ▸ total_again t.buffer (x::b) rest) carries.read
          (fun v c meets => calm v c (.later none dry meets)) rfl

theorem calls_calm (carries : Carries fs [] left t) (calm : Calm t left) :
    ∃ u, calls fs.length t left = (fs.map .frame,[],u) ∧ u.buffer.bytes = [] := by
  induction fs generalizing left t with
  | nil =>
    have octets := carries.octets
    rw [List.append_nil] at octets
    obtain ⟨nothing,empty⟩ := List.append_eq_nil_iff.mp octets
    have spent : left = [] := by
      cases left with
      | nil => rfl
      | cons r rest =>
        obtain ⟨x,b,rfl⟩ := carries.brings r List.mem_cons_self
        cases empty
    exact ⟨t,by rw [spent]; rfl,nothing⟩
  | cons f later ih =>
    have yields := receive_yields carries calm
    generalize received : t.receive left = got at yields
    cases yields with
    | frame first going calm =>
      cases first
      obtain ⟨u,called,empty⟩ := ih going calm
      exact ⟨u,by simp only [List.length_cons,calls,received,called,List.map_cons],empty⟩
    | pending going none short => exact absurd (front_there going.octets (Nat.zero_le _)) (Nat.not_le.mpr (short f rfl))

theorem calls_flooded (carries : Carries fs coming left t) (meets : Meets t left u b) (floods : u.Floods b) :
    ∃ front f back rest v, fs = front ++ f::back ∧
      calls (front.length+1) t left = (front.map .frame ++ [oversized],rest,v) ∧ v.buffer.bytes = [] := by
  induction meets generalizing fs with
  | @here t b rest none =>
    have received := receive_floods none carries.connected floods rest
    cases fs with
    | nil =>
      have nothing := (List.append_eq_nil_iff.mp (List.append_eq_nil_iff.mp carries.octets).1).1
      exact absurd nothing floods.1
    | cons f back => exact ⟨[],f,back,_,_,rfl,by simp only [List.length_nil,calls,received]; rfl,rfl⟩
  | @later t b rest u c none calm meets ih =>
    obtain ⟨front,f,back,left,v,same,called,empty⟩ := ih carries.read floods
    refine ⟨front,f,back,left,v,same,?_,empty⟩
    rw [← called]
    simp only [calls,receive_calm none carries.connected calm]
  | @delivered t f v left u c found meets ih =>
    rcases carries.next with ⟨g,others,w,same,found',going,_⟩ | ⟨none,_⟩
    · cases found.symm.trans found'
      obtain ⟨front,h,back,rest,w,split,called,empty⟩ := ih going floods
      refine ⟨f::front,h,back,rest,w,by rw [same,split]; rfl,?_,empty⟩
      rw [List.length_cons,calls,receive_found found]
      simp only [called]
      rfl
    · cases found.symm.trans none

-- Each read ends at most so many octets as a frame can have behind the end of a frame that is there
-- when it begins. Before the first read there are `held` octets.
def Near (fs : List Bytes) (held : Nat) (cs : List Bytes) : Prop :=
  ∀ before c after, cs = before ++ c::after → ∃ front back, fs = front ++ back ∧
    front.flatten.length ≤ held+before.flatten.length ∧ held+before.flatten.length+c.length ≤ front.flatten.length+256

theorem Near.delivered {held : Nat} {cs : List Bytes} (near : Near (f::fs) (held+f.length) cs) : Near fs held cs := by
  intro before c after split
  obtain ⟨front,back,same,least,most⟩ := near before c after split
  cases front with
  | nil => exact ⟨[],fs,rfl,Nat.zero_le _,by simp only [List.flatten_nil,List.length_nil] at most ⊢; omega⟩
  | cons g front =>
    obtain ⟨rfl,rfl⟩ := List.cons.inj same
    refine ⟨front,back,rfl,?_⟩
    rw [List.flatten_cons,List.length_append] at least most
    omega

theorem Near.few {held : Nat} {cs : List Bytes} (few : held+cs.flatten.length ≤ 256) : Near fs held cs := by
  intro before c after split
  rw [split,List.flatten_append,List.flatten_cons,List.length_append,List.length_append] at few
  exact ⟨[],fs,rfl,Nat.zero_le _,by rw [List.flatten_nil,List.length_nil]; omega⟩

-- What a read leaves behind is the next thing that is read, and ends where the read did.
theorem Near.read {held : Nat} {left : Bytes} {rest : List Read} (near : Near fs held ((c ++ left)::rest.map Read.octets)) :
    Near fs (held+c.length) ((again left rest).map Read.octets) := by
  have further : Near fs (held+c.length) (left::rest.map Read.octets) := by
    intro before d after split
    cases before with
    | nil =>
      obtain ⟨rfl,rfl⟩ := List.cons.inj split
      obtain ⟨front,back,same,least,most⟩ := near [] (c ++ left) _ rfl
      refine ⟨front,back,same,?_⟩
      simp only [List.flatten_nil,List.length_nil,List.length_append] at least most ⊢
      omega
    | cons e before =>
      obtain ⟨rfl,behind⟩ := List.cons.inj split
      obtain ⟨front,back,same,least,most⟩ := near ((c ++ left)::before) d after (congrArg (List.cons (c ++ left)) behind)
      refine ⟨front,back,same,?_⟩
      simp only [List.flatten_cons,List.length_append] at least most ⊢
      omega
  unfold again
  split
  · rename_i none
    intro before d after split
    obtain ⟨front,back,same,reaches⟩ := further (left::before) d after (congrArg (List.cons left) split)
    rw [List.isEmpty_iff.mp none,List.flatten_cons,List.nil_append] at reaches
    exact ⟨front,back,same,reaches⟩
  · exact further

theorem accept_takes (b : Buffer) (arrived : Bytes) : ∃ took, (b.accept arrived).1.bytes = b.bytes ++ took ∧
    took ++ (b.accept arrived).2 = arrived := by
  have all := b.accept_bytes arrived
  have begins : b.bytes <+: (b.accept arrived).1.bytes := by
    unfold Buffer.accept Buffer.ready
    split <;> (try split) <;> exact List.prefix_append _ _
  obtain ⟨took,same⟩ := begins
  refine ⟨took,same.symm,?_⟩
  rw [← same,List.append_assoc] at all
  exact List.append_cancel_left all

theorem Near.calm (carries : Carries fs coming left t) (near : Near fs t.buffer.bytes.length (left.map Read.octets)) : Calm t left := by
  intro u b meets
  induction meets generalizing fs with
  | @here t b rest none =>
    rintro ⟨some,flood⟩
    obtain ⟨front,back,same,least,most⟩ := near [] b _ rfl
    have taken := congrArg List.length (t.buffer.accept_bytes b)
    simp only [List.length_append,List.flatten_nil,List.length_nil] at taken least most
    cases front with
    | nil =>
      simp only [List.flatten_nil,List.length_nil] at most
      omega
    | cons f front =>
      rcases carries.next with ⟨_,_,_,_,found,_⟩ | ⟨_,short⟩
      · cases none.symm.trans found
      · have part := short f (by rw [same]; rfl)
        rw [List.flatten_cons,List.length_append] at least
        omega
  | @later t b rest u c none calm meets ih =>
    obtain ⟨took,more,all⟩ := accept_takes t.buffer b
    rw [List.map_cons,Read.octets,← all] at near
    refine ih carries.read ?_
    rw [Rtu.read,more,List.length_append]
    exact near.read
  | @delivered t f v left u c found meets ih =>
    rcases carries.next with ⟨g,later,w,same,found',going,counted⟩ | ⟨none,_⟩
    · cases found.symm.trans found'
      rw [same,← counted] at near
      exact ih going near.delivered
    · cases found.symm.trans none

structure Reassembles (fs cs : List Bytes) : Prop where
  -- each call gives the next frame exactly if no read brings too much on top of a part of a frame
  each : (calls fs.length opened (cs.map .data)).1 = fs.map .frame ↔ Calm opened (cs.map .data)
  spent : Calm opened (cs.map .data) → (calls fs.length opened (cs.map .data)).2.1 = [] ∧
    (calls fs.length opened (cs.map .data)).2.2.buffer.bytes = []
  -- otherwise the frames before that read are given, and what is in the buffer is lost with a fault
  lost : ¬Calm opened (cs.map .data) → ∃ front f back, fs = front ++ f::back ∧
    (calls (front.length+1) opened (cs.map .data)).1 = front.map .frame ++ [oversized] ∧
    (calls (front.length+1) opened (cs.map .data)).2.2.buffer.bytes = []
  -- it does not happen to reads that do not go far behind the end of a frame
  near : Near fs 0 cs → Calm opened (cs.map .data)

theorem serial_frames_reassembled {cs : List Bytes} (whole : ∀ f ∈ fs, Whole f) (filled : ∀ c ∈ cs, c ≠ [])
    (cut : cs.flatten = fs.flatten) : Reassembles fs cs := by
  have carries : Carries fs [] (cs.map .data) opened := by
    refine ⟨whole,rfl,?_,?_⟩
    · intro r member
      obtain ⟨c,among,rfl⟩ := List.mem_map.mp member
      obtain ⟨x,b,rfl⟩ := List.exists_cons_of_ne_nil (filled c among)
      exact ⟨x,b,rfl⟩
    · rw [← cut,List.append_nil]
      exact Tcp.unread_arrive [] cs
  have lost : ¬Calm opened (cs.map .data) → ∃ front f back rest v, fs = front ++ f::back ∧
      calls (front.length+1) opened (cs.map .data) = (front.map .frame ++ [oversized],rest,v) ∧ v.buffer.bytes = [] := by
    intro flooded
    simp only [Calm,Classical.not_forall,Classical.not_not] at flooded
    obtain ⟨u,b,meets,floods⟩ := flooded
    exact calls_flooded carries meets floods
  refine ⟨⟨?_,?_⟩,?_,?_,?_⟩
  · intro given
    refine Classical.byContradiction fun flooded => ?_
    obtain ⟨front,f,back,rest,v,same,called,_⟩ := lost flooded
    have counted : fs.length = front.length+1+back.length := by
      rw [same,List.length_append,List.length_cons]
      omega
    rw [counted,calls_add,called,same] at given
    simp [oversized] at given
  · intro calm
    obtain ⟨u,called,_⟩ := calls_calm carries calm
    rw [called]
  · intro calm
    obtain ⟨u,called,empty⟩ := calls_calm carries calm
    rw [called]
    exact ⟨rfl,empty⟩
  · intro flooded
    obtain ⟨front,f,back,rest,v,same,called,empty⟩ := lost flooded
    exact ⟨front,f,back,same,by rw [called],by rw [called]; exact empty⟩
  · intro near
    refine Near.calm carries ?_
    have octets : (cs.map Read.data).map Read.octets = cs := by
      rw [List.map_map]
      exact List.map_id cs
    rw [octets]
    exact near

def refusals : List Bytes := List.replicate 52 [1,0x83,2,0xc0,0xf1]

theorem refusals_length : refusals.flatten.length = 260 := by
  rw [refusals,List.length_flatten,List.map_replicate,List.sum_replicate_nat]
  rfl

theorem refusals_flood : (opened.read [1]).Floods (refusals.flatten.drop 1) := by
  refine ⟨by decide,?_⟩
  show 256 < (1::(refusals.flatten.drop 1).take 511).length
  rw [List.length_cons,List.length_take,List.length_drop,refusals_length]
  decide

-- Two answers are given however they are cut. Of refusals that all come behind the first octet
-- of the first one, none is.
theorem serial_frames_reassembled_cut :
    Reassembles [[1,3,2,0,42,57,155],[1,0x83,2,0xc0,0xf1]] [[1],[3,2,0],[42,57,155,1,0x83],[2,0xc0,0xf1]] ∧
    (calls 2 opened [.data [1],.data [3,2,0],.data [42,57,155,1,0x83],.data [2,0xc0,0xf1]]).1 =
      [.frame [1,3,2,0,42,57,155],.frame [1,0x83,2,0xc0,0xf1]] ∧
    Reassembles refusals [[1],refusals.flatten.drop 1] ∧
    (calls 52 opened [.data [1],.data (refusals.flatten.drop 1)]).1 ≠ refusals.map .frame := by
  have whole : ∀ f ∈ [[1,3,2,0,42,57,155],[1,0x83,2,0xc0,0xf1]], Whole f := by
    intro f member
    simp only [List.mem_cons,List.not_mem_nil,or_false] at member
    rcases member with rfl | rfl <;> exact ⟨rfl,by decide⟩
  have answers : Reassembles _ [[1],[3,2,0],[42,57,155,1,0x83],[2,0xc0,0xf1]] :=
    serial_frames_reassembled whole (by decide) rfl
  have refused : ∀ f ∈ refusals, Whole f := by
    intro f member
    cases List.eq_of_mem_replicate member
    exact ⟨rfl,by decide⟩
  have behind : refusals.flatten.drop 1 ≠ [] := by
    rw [← List.length_pos_iff,List.length_drop,refusals_length]
    decide
  have filled : ∀ c ∈ [[1],refusals.flatten.drop 1], c ≠ [] :=
    List.forall_mem_cons.mpr ⟨by decide,List.forall_mem_singleton.mpr behind⟩
  have front : refusals.flatten.take 1 = [1] := rfl
  have cut : [[1],refusals.flatten.drop 1].flatten = refusals.flatten := by
    rw [List.flatten_cons,List.flatten_singleton,← front]
    exact List.take_append_drop 1 refusals.flatten
  have flooded : Reassembles refusals [[1],refusals.flatten.drop 1] :=
    serial_frames_reassembled refused filled cut
  have first : ¬opened.Floods [1] := fun floods => floods.1 rfl
  have none : (opened.read [1]).nextFrame = (.ok none,opened.read [1]) := rfl
  exact ⟨answers,answers.each.mpr (answers.near (Near.few (by decide))),flooded,
    fun given => flooded.each.mp given _ _ (.later rfl first (.here none)) refusals_flood⟩

end ModbusMaster.Stream.Rtu
