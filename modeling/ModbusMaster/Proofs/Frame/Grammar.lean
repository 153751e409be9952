import ModbusMaster.Proofs.Frame.Checksum
import ModbusMaster.Proofs.Stream.Ending
namespace ModbusMaster

-- The language of the decoders: which octets they accept, that they read back every response that
-- fits into a frame, and that what a socket gives is never too short for them.

theorem Bytes.le16_word (hi lo : UInt8) : le16 (word hi lo) = [lo,hi] := congrArg List.reverse (be16_word hi lo)

namespace Function
variable {f : UInt8}

theorem below_bit (below : f < 0x80) : f &&& exceptionBit = 0 := by
  have octets : ∀ b : BitVec 8, b < 0x80#8 → b &&& 0x80#8 = 0#8 := by decide +kernel
  exact UInt8.toBitVec_inj.mp (octets f.toBitVec below)

theorem marked_bit (f : UInt8) : (f ||| exceptionBit) &&& exceptionBit = exceptionBit := by
  have octets : ∀ b : BitVec 8, (b ||| 0x80#8) &&& 0x80#8 = 0x80#8 := by decide +kernel
  exact UInt8.toBitVec_inj.mp (octets f.toBitVec)

theorem marked_code (below : f < 0x80) : (f ||| exceptionBit) &&& 0x7F = f := by
  have octets : ∀ b : BitVec 8, b < 0x80#8 → (b ||| 0x80#8) &&& 0x7F#8 = b := by decide +kernel
  exact UInt8.toBitVec_inj.mp (octets f.toBitVec below)

end Function

namespace Frame
variable {f g body : Bytes} {hi lo : UInt8} {n : Nat}

def protocol (f : Bytes) : UInt16 := Bytes.word (f.getD 2 0) (f.getD 3 0)

def declared (f : Bytes) : Nat := (Bytes.word (f.getD 4 0) (f.getD 5 0)).toNat

def Refuses (f : Bytes) : Prop := f.getD 7 0 &&& Function.exceptionBit ≠ 0

theorem declared_take (enough : 6 ≤ n) (f : Bytes) : declared (f.take n) = declared f := by
  simp only [declared,List.getD_eq_getElem?_getD,List.getElem?_take_of_lt (show 4 < n by omega),
    List.getElem?_take_of_lt (show 5 < n by omega)]

theorem tcpLength?_declared (known : tcpLength? f = some n) : n = 6+declared f := by
  unfold tcpLength? at known
  split at known
  · cases known
    rfl
  · cases known

theorem sealed_iff : body ++ [lo,hi] = sealed body ↔ Bytes.word hi lo = Crc.checksum body := by
  rw [sealed,List.append_cancel_left_eq,← Bytes.le16_word]
  constructor
  · intro same
    rw [← Bytes.word_be16 (Bytes.word hi lo),← Bytes.word_be16 (Crc.checksum body)]
    injection same with low rest
    injection rest with high
    rw [low,high]
  · exact congrArg Bytes.le16

end Frame

namespace Response
variable {format : Format} {f g : Bytes} {r : Response} {e : Frame.Refusal}

-- The octets of a stream that spell a response: more of them may follow.
structure Spells (f : Bytes) : Prop where
  least : 8 ≤ f.length
  protocol : Frame.protocol f = 0
  declared : 2 ≤ Frame.declared f
  present : 6+Frame.declared f ≤ f.length
  coded : Frame.Refuses f → 3 ≤ Frame.declared f

-- What the decoder of streams says to octets, and the ground for it.
inductive Verdict (f : Bytes) : Except Frame.Refusal Response → Prop where
  | short (few : f.length < 8) : Verdict f (.error .tooShort)
  | protocol (other : Frame.protocol f ≠ 0) : Verdict f (.error (.protocol (Frame.protocol f)))
  | incomplete (missing : Frame.declared f < 2 ∨ f.length < 6+Frame.declared f) : Verdict f (.error .incomplete)
  | uncoded (refuses : Frame.Refuses f) (alone : Frame.declared f = 2) : Verdict f (.error .noExceptionCode)
  | read (spells : Spells f) (r : Response) : Verdict f (.ok r)

theorem split_marked {m : UInt8} (marked : m &&& Function.exceptionBit ≠ 0) (code : UInt8) (rest : Bytes) :
    split (m::code::rest) = .ok (m &&& 0x7F,some code,[]) := if_pos (bne_iff_ne.mpr marked)

theorem split_alone {m : UInt8} (marked : m &&& Function.exceptionBit ≠ 0) : split [m] = .error .noExceptionCode :=
  if_pos (bne_iff_ne.mpr marked)

theorem decodeTcp_verdict (f : Bytes) : Verdict f (decodeTcp f) := by
  match f with
  | [] | [_] | [_,_] | [_,_,_] | [_,_,_,_] | [_,_,_,_,_] | [_,_,_,_,_,_] | [_,_,_,_,_,_,_] =>
    exact .short (by simp)
  | t1::t0::p1::p0::n1::n0::unit::m::rest =>
    have least : 8 ≤ (t1::t0::p1::p0::n1::n0::unit::m::rest).length := by simp
    unfold decodeTcp
    dsimp only
    rw [if_neg (by simp)]
    split
    · rename_i other
      exact .protocol (bne_iff_ne.mp other)
    · rename_i protocol
      have protocol : Bytes.word p1 p0 = 0 := by simpa using protocol
      split
      · rename_i missing
        simp only [Bool.or_eq_true,decide_eq_true_eq] at missing
        exact .incomplete missing
      · rename_i present
        simp only [Bool.or_eq_true,decide_eq_true_eq,not_or,Nat.not_lt] at present
        obtain ⟨declared,present⟩ := present
        obtain ⟨n,length⟩ := Nat.exists_eq_add_of_le' declared
        rw [length,show n+2-1 = n+1 from rfl,List.take_succ_cons]
        by_cases plain : m &&& Function.exceptionBit = 0
        · rw [split_plain plain]
          exact .read ⟨least,protocol,declared,present,absurd plain⟩ _
        · cases n with
          | zero =>
            rw [List.take_zero,split_alone plain]
            exact .uncoded plain length
          | succ n => cases rest with
            | nil =>
              simp only [length,Format.headerSize,List.length_cons,List.length_nil] at present
              omega
            | cons code rest =>
              have coded : 3 ≤ (Bytes.word n1 n0).toNat := by omega
              rw [List.take_succ_cons,split_marked plain]
              exact .read ⟨least,protocol,declared,present,fun _ => coded⟩ _

theorem decodeTcp_ok_iff (f : Bytes) : (∃ r, decodeTcp f = .ok r) ↔ Spells f := by
  have verdict := decodeTcp_verdict f
  constructor
  · rintro ⟨r,decoded⟩
    rw [decoded] at verdict
    cases verdict with
    | read spells => exact spells
  · intro spells
    obtain ⟨least,protocol,declared,present,coded⟩ := spells
    generalize decodeTcp f = res at verdict
    cases verdict with
    | short few => omega
    | protocol other => exact absurd protocol other
    | incomplete missing => omega
    | uncoded refuses alone =>
      have := coded refuses
      omega
    | read _ r => exact ⟨r,rfl⟩

theorem eight_octets (enough : 8 ≤ f.length) : ∃ t1 t0 p1 p0 n1 n0 unit m rest,
    f = t1::t0::p1::p0::n1::n0::unit::m::rest := by
  match f,enough with
  | t1::t0::p1::p0::n1::n0::unit::m::rest,_ => exact ⟨t1,t0,p1,p0,n1,n0,unit,m,rest,rfl⟩

theorem decodeTcp_counted {t1 t0 p1 p0 n1 n0 unit m : UInt8} {rest : Bytes} {n : Nat}
    (length : (Bytes.word n1 n0).toNat = n+2) (more : n ≤ rest.length) :
    decodeTcp (t1::t0::p1::p0::n1::n0::unit::m::rest.take n) = decodeTcp (t1::t0::p1::p0::n1::n0::unit::m::rest) := by
  have whole : ¬rest.length+8 < 6+(n+2) := by omega
  have part : ¬(rest.take n).length+8 < 6+(n+2) := by
    rw [List.length_take]
    omega
  simp only [decodeTcp,length,List.length_cons,Format.headerSize,whole,part]
  rw [show n+2-1 = n+1 from rfl,List.take_succ_cons,List.take_succ_cons,List.take_take,Nat.min_self]
  rfl

theorem decodeTcp_take (declared : 2 ≤ Frame.declared f) : decodeTcp (f.take (6+Frame.declared f)) = decodeTcp f := by
  rcases Nat.lt_or_ge (6+Frame.declared f) f.length with more | all
  · obtain ⟨t1,t0,p1,p0,n1,n0,unit,m,rest,rfl⟩ := eight_octets (f:=f) (by omega)
    obtain ⟨n,length⟩ := Nat.exists_eq_add_of_le' declared
    rw [length] at more ⊢
    rw [show 6+(n+2) = n+8 by omega]
    refine decodeTcp_counted length ?_
    simp only [List.length_cons] at more
    omega
  · rw [List.take_of_length_le all]

theorem decodeTcp_front (same : g.take (6+Frame.declared f) = f.take (6+Frame.declared f)) :
    (2 ≤ Frame.declared f → decodeTcp g = decodeTcp f) ∧ ∀ r, decodeTcp g = .ok r ↔ decodeTcp f = .ok r := by
  have counted : Frame.declared g = Frame.declared f := by
    have enough : 6 ≤ 6+Frame.declared f := Nat.le_add_right 6 _
    rw [← Frame.declared_take enough g,same,Frame.declared_take enough]
  have agree : 2 ≤ Frame.declared f → decodeTcp g = decodeTcp f := by
    intro declared
    rw [← decodeTcp_take declared,← same,← counted]
    exact (decodeTcp_take (counted ▸ declared)).symm
  refine ⟨agree,fun r => ?_⟩
  rcases Nat.lt_or_ge (Frame.declared f) 2 with few | declared
  · -- neither is read
    constructor
    · intro decoded
      have := ((decodeTcp_ok_iff g).mp ⟨r,decoded⟩).declared
      omega
    · intro decoded
      have := ((decodeTcp_ok_iff f).mp ⟨r,decoded⟩).declared
      omega
  · rw [agree declared]

-- What the decoder of serial frames says: the checksum decides, and nothing behind it.
inductive Checked (f : Bytes) : Except Frame.Refusal Response → Prop where
  | short (few : f.length < 5) : Checked f (.error .tooShort)
  | crc {body : Bytes} {lo hi : UInt8} (ends : f = body ++ [lo,hi]) (differs : Bytes.word hi lo ≠ Crc.checksum body) :
      Checked f (.error (.crc (Crc.checksum body) (Bytes.word hi lo)))
  | read {body : Bytes} (enough : 5 ≤ f.length) (closed : f = Frame.sealed body) (r : Response) : Checked f (.ok r)

theorem decodeRtu_checked (f : Bytes) : Checked f (decodeRtu f) := by
  rcases Nat.lt_or_ge f.length 5 with few | enough
  · rw [decodeRtu,if_pos few]
    exact .short few
  · obtain ⟨body,lo,hi,rfl⟩ := ends_octets (f:=f) (by omega)
    have long : 3 ≤ body.length := by simpa using enough
    obtain ⟨reads,refuses⟩ := decodeRtu_closed lo hi long
    by_cases agrees : Bytes.word hi lo = Crc.checksum body
    · obtain ⟨r,decoded⟩ := reads agrees
      rw [decoded]
      exact .read enough (Frame.sealed_iff.mpr agrees) r
    · rw [refuses agrees]
      exact .crc rfl agrees

theorem decodeRtu_ok_iff (f : Bytes) : (∃ r, decodeRtu f = .ok r) ↔ 5 ≤ f.length ∧ ∃ body, f = Frame.sealed body := by
  have checked := decodeRtu_checked f
  constructor
  · rintro ⟨r,decoded⟩
    rw [decoded] at checked
    cases checked with
    | read enough closed => exact ⟨enough,_,closed⟩
  · rintro ⟨enough,body,closed⟩
    generalize decodeRtu f = res at checked
    cases checked with
    | short few => omega
    | @crc other lo hi ends differs =>
      have last : body ++ Bytes.le16 (Crc.checksum body) = other ++ [lo,hi] := closed.symm.trans ends
      obtain ⟨rfl,_⟩ := List.append_inj' last rfl
      exact absurd (Frame.sealed_iff.mp (ends.symm.trans closed)) differs
    | read _ _ r => exact ⟨r,rfl⟩

def contents (r : Response) : Bytes := match r.exception with
  | some code => [r.function ||| Function.exceptionBit,code]
  | none => r.function::r.payload

def encode (format : Format) (r : Response) : Bytes := Frame.wrap format (r.transaction.getD 0) r.unit r.contents

structure Fits (format : Format) (r : Response) : Prop where
  function : r.function < 0x80
  -- a refusal carries nothing but its code, and only streams show a transaction
  alternative : r.exception ≠ none → r.payload = []
  shown : r.transaction = none ↔ format = .rtu
  some : format = .rtu → r.exception = none → r.payload ≠ []
  within : format.aduLength r.contents.length ≤ format.maxAdu

theorem split_contents (function : r.function < 0x80) (alternative : r.exception ≠ none → r.payload = []) :
    split r.contents = .ok (r.function,r.exception,r.payload) := by
  unfold contents
  cases refused : r.exception with
  | none => exact split_plain (Function.below_bit function) r.payload
  | some code =>
    have marked : (r.function ||| Function.exceptionBit) &&& Function.exceptionBit ≠ 0 := by
      rw [Function.marked_bit]
      decide
    rw [split_marked marked,Function.marked_code function,alternative (by simp [refused])]

theorem Fits.decoded (fits : Fits format r) : decode format (r.encode format) = .ok r := by
  have splits := split_contents fits.function fits.alternative
  have two : format = .rtu → 2 ≤ r.contents.length := by
    intro serial
    have some := fits.some serial
    unfold contents
    cases refused : r.exception with
    | none => exact Nat.succ_le_succ (List.length_pos_iff.mpr (some refused))
    | some code => exact Nat.le_refl 2
  have few : r.contents.length+1 < UInt16.size := by
    have within := fits.within
    refine Nat.lt_trans (m:=261) ?_ (by decide)
    cases format <;> simp only [Format.aduLength,Format.maxAdu,Format.headerSize] at within <;> omega
  rw [encode,Frame.decode_wrap splits two few]
  have shown : format.shown (r.transaction.getD 0) = r.transaction := by
    have iff := fits.shown
    cases format <;> cases transaction : r.transaction <;> simp_all [Format.shown]
  rw [shown]

structure Decodes (f : Bytes) : Prop where
  stream : (∃ r, decodeTcp f = .ok r) ↔ Spells f
  front : ∀ g, g.take (6+Frame.declared f) = f.take (6+Frame.declared f) →
    (2 ≤ Frame.declared f → decodeTcp g = decodeTcp f) ∧ ∀ r, decodeTcp g = .ok r ↔ decodeTcp f = .ok r
  serial : (∃ r, decodeRtu f = .ok r) ↔ 5 ≤ f.length ∧ ∃ body, f = Frame.sealed body
  checked : ∀ e, decodeRtu f = .error e → f.length < 5 ∧ e = .tooShort ∨
    ∃ body lo hi, f = body ++ [lo,hi] ∧ Bytes.word hi lo ≠ Crc.checksum body ∧ e = .crc (Crc.checksum body) (Bytes.word hi lo)
  -- a socket has looked at the lengths already
  delivered : ∀ (t : Stream.Tcp) (reads left : List Stream.Read) (u : Stream.Tcp), t.receive reads = (.frame f,left,u) →
    ∀ e, decodeTcp f = .error e → Frame.protocol f ≠ 0 ∧ e = .protocol (Frame.protocol f) ∨
      Frame.Refuses f ∧ f.length = 8 ∧ e = .noExceptionCode

theorem delivered_refused (whole : Stream.Tcp.Whole f) (refused : decodeTcp f = .error e) :
    Frame.protocol f ≠ 0 ∧ e = .protocol (Frame.protocol f) ∨ Frame.Refuses f ∧ f.length = 8 ∧ e = .noExceptionCode := by
  have length := Frame.tcpLength?_declared whole.declared
  have least := whole.least
  have verdict := decodeTcp_verdict f
  rw [refused] at verdict
  cases verdict with
  | short few => omega
  | protocol other => exact .inl ⟨other,rfl⟩
  | incomplete missing => omega
  | uncoded refuses alone => exact .inr ⟨refuses,by rw [length,alone],rfl⟩

theorem decodes (f : Bytes) : Decodes f := by
  refine ⟨decodeTcp_ok_iff f,fun _ => decodeTcp_front,decodeRtu_ok_iff f,?_,?_⟩
  · intro e refused
    have checked := decodeRtu_checked f
    rw [refused] at checked
    cases checked with
    | short few => exact .inl ⟨few,rfl⟩
    | crc ends differs => exact .inr ⟨_,_,_,ends,differs,rfl⟩
  · intro t reads left u received e refused
    have gives := t.receive_gives reads
    rw [received] at gives
    cases gives with
    | frame whole => exact delivered_refused whole refused

theorem decoders_read_their_grammar (f : Bytes) (format : Format) (r : Response) :
    Decodes f ∧ (Fits format r → decode format (r.encode format) = .ok r) := ⟨decodes f,Fits.decoded⟩

-- A refusal on a serial line, which is the shortest frame there is, and what it is without its checksum.
theorem decoders_read_their_grammar_refusal : Decodes [17,0x83,2] ∧ Fits .rtu ⟨none,17,3,some 2,[]⟩ ∧
    decode .rtu (encode .rtu ⟨none,17,3,some 2,[]⟩) = .ok ⟨none,17,3,some 2,[]⟩ := by
  have fits : Fits .rtu ⟨none,17,3,some 2,[]⟩ :=
    ⟨by decide,fun _ => rfl,iff_of_true rfl rfl,(fun _ plain => nomatch plain),by decide⟩
  obtain ⟨octets,read⟩ := decoders_read_their_grammar [17,0x83,2] .rtu ⟨none,17,3,some 2,[]⟩
  exact ⟨octets,fits,read fits⟩

end Response
end ModbusMaster
