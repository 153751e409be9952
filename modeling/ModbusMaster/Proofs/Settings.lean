import Mathlib.Data.UInt
import ModbusMaster.Stream.Link
import ModbusMaster.Proofs.Gateway
namespace ModbusMaster

-- The timing that settings come to. Whatever a file and the environment say, it is in range, and it is
-- the same in words of 64 bits, which are cast and multiplied, as in numbers without a bound.

namespace Timing
variable {ms : Int}

theorem inRange_iff : inRange ms = true ↔ 0 < ms ∧ ms < 60000 := by
  rw [inRange,Bool.and_eq_true,decide_eq_true_eq,decide_eq_true_eq]
  rfl

def last? (times : List Int) : Option Int := (times.filter inRange).getLast?

theorem last?_cons (ms : Int) (times : List Int) :
    last? (ms::times) = (last? times).or (if inRange ms then some ms else none) := by
  unfold last?
  by_cases within : inRange ms = true
  · rw [List.filter_cons_of_pos within,List.getLast?_cons,if_pos within]
    cases (times.filter inRange).getLast? <;> rfl
  · rw [List.filter_cons_of_neg within,if_neg within,Option.or_none]

theorem last?_inRange {times : List Int} (last : last? times = some ms) : inRange ms = true :=
  (List.mem_filter.mp (List.mem_of_getLast? last)).2

end Timing

theorem SerialSettings.gapUs_le (serial : SerialSettings) : serial.gapUs ≤ 38500000 := by
  have most : 11000000/max serial.baudRate 1 ≤ 11000000 := Nat.div_le_self _ _
  unfold gapUs
  omega

namespace Settings
variable {s : Settings} {env : String → Option String} {text name : String} {ms : Nat}

def given (env : String → Option String) (name : String) : List Int :=
  ((env name).bind fun text => Text.integer? (Text.trim text.toList)).toList

theorem overrides_last (env : String → Option String) (name : String) :
    (env name).bind overrideMs? = (Timing.last? (given env name)).map Int.toNat := by
  unfold given
  cases env name with
  | none => rfl
  | some text =>
    unfold overrideMs?
    simp only [Option.bind_some]
    cases Text.integer? (Text.trim text.toList) with
    | none => rfl
    | some ms =>
      simp only [Option.bind_some,Option.toList_some]
      rw [Timing.last?_cons]
      by_cases within : Timing.inRange ms = true
      · rw [if_pos within,if_pos within]
        rfl
      · rw [if_neg within,if_neg within]
        rfl

def delaySet? (s : Settings) (env : String → Option String) : Option Nat :=
  ((Timing.last? (given env "MODBUS_INTERFRAME_DELAY_MS")).map Int.toNat).or s.delayMs

theorem overridden_delay (s : Settings) (env : String → Option String) : (s.overridden env).delayMs = s.delaySet? env := by
  unfold overridden delaySet?
  dsimp only
  rw [overrides_last]
  cases (Timing.last? (given env "MODBUS_INTERFRAME_DELAY_MS")).map Int.toNat <;> rfl

theorem responseUs_eq (s : Settings) :
    s.timing.responseUs = if Timing.inRange s.responseMs then s.responseMs*1000 else 80000 := rfl

theorem delayUs_eq (s : Settings) :
    s.timing.delayUs = if Timing.inRange s.effectiveDelayMs then s.effectiveDelayMs*1000 else 0 := rfl

theorem responseUs_last (s : Settings) (env : String → Option String) : (s.overridden env).timing.responseUs =
    ((Timing.last? ((s.responseMs : Int)::given env "MODBUS_RESPONSE_TIMEOUT_MS")).getD 80).toNat*1000 := by
  have overridden : (s.overridden env).responseMs =
      ((Timing.last? (given env "MODBUS_RESPONSE_TIMEOUT_MS")).map Int.toNat).getD s.responseMs :=
    congrArg (·.getD s.responseMs) (overrides_last env "MODBUS_RESPONSE_TIMEOUT_MS")
  rw [responseUs_eq,overridden,Timing.last?_cons]
  cases last : Timing.last? (given env "MODBUS_RESPONSE_TIMEOUT_MS") with
  | some ms =>
    have within := Timing.last?_inRange last
    have positive := (Timing.inRange_iff.mp within).1
    have same : ((ms.toNat : Nat) : Int) = ms := Int.toNat_of_nonneg (Int.le_of_lt positive)
    rw [Option.map_some,Option.getD_some,same,if_pos within]
    rfl
  | none =>
    rw [Option.map_none,Option.getD_none,Option.none_or]
    by_cases within : Timing.inRange s.responseMs = true
    · rw [if_pos within,if_pos within]
      rfl
    · rw [if_neg within,if_neg within]
      rfl

theorem delayUs_lt (s : Settings) : s.timing.delayUs < 60000*1000 := by
  rw [delayUs_eq]
  split
  · rename_i within
    have := (Timing.inRange_iff.mp within).2
    omega
  · decide

-- What a serial line keeps on its own is never out of range: it is not a minute at any speed, and it is
-- nothing only where the silence between frames is.
theorem delayUs_serial (serial : s.format = .rtu) (unset : s.delayMs = none) : s.timing.delayUs = s.effectiveDelayMs*1000 ∧
    s.serial.gapUs ≤ s.timing.delayUs ∧ s.timing.delayUs < s.serial.gapUs+1000 := by
  have effective : s.effectiveDelayMs = (s.serial.gapUs+999)/1000 := by
    unfold effectiveDelayMs
    rw [serial,unset]
  have most := s.serial.gapUs_le
  have kept : s.timing.delayUs = s.effectiveDelayMs*1000 := by
    rw [delayUs_eq]
    split
    · rfl
    · rename_i outside
      have outside := mt Timing.inRange_iff.mpr outside
      omega
  rw [kept,effective]
  omega

structure Words where
  format : Format
  responseMs : UInt64
  delayMs : Option UInt64
  maxRetries : UInt32
  baudRate : UInt32

structure Sized (s : Settings) : Prop where
  responseMs : s.responseMs < 2^64
  delayMs : ∀ ms, s.delayMs = some ms → ms < 2^64
  maxRetries : s.maxRetries < 2^32
  baudRate : s.serial.baudRate < 2^32

namespace Words

structure Held where
  responseUs : UInt64
  delayUs : UInt64
  maxRetries : UInt32

def Held.timing (t : Held) : Timing := ⟨t.responseUs.toNat,t.delayUs.toNat,t.maxRetries.toNat⟩

def ofSettings (s : Settings) : Words :=
  ⟨s.format,UInt64.ofNat s.responseMs,s.delayMs.map UInt64.ofNat,UInt32.ofNat s.maxRetries,UInt32.ofNat s.serial.baudRate⟩

def inRange (ms : Int64) : Bool := 0 < ms && ms < 60000

def signed? (text : String) : Option Int64 :=
  (Text.integer? (Text.trim text.toList)).bind fun n =>
    if -0x8000000000000000 ≤ n ∧ n < 0x8000000000000000 then some (Int64.ofInt n) else none

def overrideMs? (text : String) : Option UInt64 :=
  (signed? text).bind fun ms => if inRange ms then some ms.toUInt64 else none

def overridden (w : Words) (env : String → Option String) : Words :=
  {w with
    responseMs:=((env "MODBUS_RESPONSE_TIMEOUT_MS").bind overrideMs?).getD w.responseMs,
    delayMs:=match (env "MODBUS_INTERFRAME_DELAY_MS").bind overrideMs? with
      | some ms => some ms
      | none => w.delayMs,
    maxRetries:=((env "MODBUS_MAX_RETRIES").bind fun text => (retriesOf? text).map UInt32.ofNat).getD w.maxRetries}

def gapUs (w : Words) : UInt64 := 11000000/(max w.baudRate 1).toUInt64*35/10

def quotient (n k : UInt64) : UInt64 := if 0 < n%k then n/k+1 else n/k

def effectiveDelayMs (w : Words) : UInt64 :=
  match w.delayMs,w.format with
  | some ms,_ => ms
  | none,.tcp => 0
  | none,.rtu => quotient w.gapUs 1000

def Held.withMillis (t : Held) (responseMs delayMs : Int64) : Held :=
  {t with responseUs:=if inRange responseMs then responseMs.toUInt64*1000 else t.responseUs,
          delayUs:=if inRange delayMs then delayMs.toUInt64*1000 else t.delayUs}

def held (w : Words) : Held :=
  {Held.withMillis ⟨80*1000,0*1000,0⟩ w.responseMs.toInt64 w.effectiveDelayMs.toInt64 with maxRetries:=w.maxRetries}

theorem inRange_toInt (ms : Int64) : inRange ms = Timing.inRange ms.toInt := by
  unfold inRange Timing.inRange
  rw [decide_eq_decide.mpr Int64.lt_iff_toInt_lt,decide_eq_decide.mpr Int64.lt_iff_toInt_lt]
  rfl

theorem toUInt64_toNat {x : Int64} (within : Timing.inRange x.toInt = true) : x.toUInt64.toNat = x.toInt.toNat := by
  have positive := (Timing.inRange_iff.mp within).1
  rw [Int64.toNat_toUInt64_of_le (Int64.le_iff_toInt_le.mpr (Int.le_of_lt positive))]
  rfl

theorem product_toNat {x : Int64} (within : Timing.inRange x.toInt = true) :
    (x.toUInt64*1000).toNat = x.toInt.toNat*1000 := by
  have below := (Timing.inRange_iff.mp within).2
  rw [UInt64.toNat_mul,toUInt64_toNat within]
  change x.toInt.toNat*1000%2^64 = _
  omega

theorem cast_toInt (x : UInt64) : x.toInt64.toInt = (x.toNat : Int).bmod (2^64) := by
  rw [← Int64.toInt_toBitVec,UInt64.toBitVec_toInt64,BitVec.toInt_eq_toNat_bmod]
  rfl

-- The cast makes numbers negative that are too large, and these are out of range before and after.
theorem cast_inRange (x : UInt64) : Timing.inRange x.toInt64.toInt = Timing.inRange x.toNat ∧
    (Timing.inRange x.toNat = true → x.toInt64.toInt = x.toNat) := by
  have size := x.toNat_lt
  rw [cast_toInt]
  rcases Nat.lt_or_ge x.toNat (2^63) with low | high
  · have same : (x.toNat : Int).bmod (2^64) = x.toNat := Int.bmod_eq_of_le (by omega) (by omega)
    rw [same]
    exact ⟨rfl,fun _ => rfl⟩
  · have negative : (x.toNat : Int).bmod (2^64) < 0 := by
      rw [Int.bmod_def]
      omega
    have after : Timing.inRange ((x.toNat : Int).bmod (2^64)) = false := by
      rw [Bool.eq_false_iff,Ne,Timing.inRange_iff]
      omega
    have before : Timing.inRange x.toNat = false := by
      rw [Bool.eq_false_iff,Ne,Timing.inRange_iff]
      omega
    exact ⟨after.trans before.symm,fun within => absurd within (by rw [before]; exact Bool.false_ne_true)⟩

theorem settled_toNat (x other : UInt64) :
    (if inRange x.toInt64 then x.toInt64.toUInt64*1000 else other).toNat =
      if Timing.inRange x.toNat then x.toNat*1000 else other.toNat := by
  obtain ⟨same,value⟩ := cast_inRange x
  rw [inRange_toInt,same]
  by_cases within : Timing.inRange x.toNat = true
  · rw [if_pos within,if_pos within,product_toNat (same.trans within),value within]
    rfl
  · rw [if_neg within,if_neg within]

theorem overrideMs?_words (text : String) : overrideMs? text = (Settings.overrideMs? text).map UInt64.ofNat := by
  unfold overrideMs? signed? Settings.overrideMs?
  cases Text.integer? (Text.trim text.toList) with
  | none => rfl
  | some n =>
    simp only [Option.bind_some]
    by_cases fits : -0x8000000000000000 ≤ n ∧ n < 0x8000000000000000
    · have value : (Int64.ofInt n).toInt = n := Int64.toInt_ofInt_of_le fits.1 fits.2
      rw [if_pos fits,Option.bind_some,inRange_toInt,value]
      by_cases within : Timing.inRange n = true
      · have same : (Int64.ofInt n).toUInt64.toNat = n.toNat := by
          rw [toUInt64_toNat (by rwa [value]),value]
        rw [if_pos within,if_pos within,Option.map_some,← same,UInt64.ofNat_toNat]
      · rw [if_neg within,if_neg within]
        rfl
    · have outside : Timing.inRange n ≠ true := by
        rw [Ne,Timing.inRange_iff]
        omega
      rw [if_neg fits,if_neg outside]
      rfl

theorem overridden_words (s : Settings) (env : String → Option String) :
    (ofSettings s).overridden env = ofSettings (s.overridden env) := by
  have override (name : String) :
      (env name).bind overrideMs? = ((env name).bind Settings.overrideMs?).map UInt64.ofNat := by
    cases env name with
    | none => rfl
    | some text => exact overrideMs?_words text
  unfold overridden ofSettings Settings.overridden
  rw [override,override]
  congr 1
  · cases (env "MODBUS_RESPONSE_TIMEOUT_MS").bind Settings.overrideMs? <;> rfl
  · cases (env "MODBUS_INTERFRAME_DELAY_MS").bind Settings.overrideMs? <;> rfl
  · cases env "MODBUS_MAX_RETRIES" with
    | none => rfl
    | some text =>
      simp only [Option.bind_some]
      cases retriesOf? text <;> rfl

theorem gapUs_words (sized : s.Sized) : (ofSettings s).gapUs.toNat = s.serial.gapUs := by
  have baud : (ofSettings s).baudRate.toNat = s.serial.baudRate := Nat.mod_eq_of_lt sized.baudRate
  have most : 11000000/max s.serial.baudRate 1 ≤ 11000000 := Nat.div_le_self _ _
  unfold gapUs SerialSettings.gapUs
  rw [UInt64.toNat_div,UInt64.toNat_mul,UInt64.toNat_div,UInt32.toNat_toUInt64,UInt32.toNat_max,baud]
  change 11000000/max s.serial.baudRate 1*35%2^64/10 = _
  rw [Nat.mod_eq_of_lt (by omega)]

theorem quotient_toNat (n : UInt64) : (quotient n 1000).toNat = (n.toNat+999)/1000 := by
  have size := n.toNat_lt
  have rest : (n%1000).toNat = n.toNat%1000 := UInt64.toNat_mod n 1000
  have whole : (n/1000).toNat = n.toNat/1000 := UInt64.toNat_div n 1000
  have some_rest : 0 < n%1000 ↔ 0 < n.toNat%1000 := by
    rw [UInt64.lt_iff_toNat_lt,rest]
    exact Iff.rfl
  unfold quotient
  by_cases left : 0 < n%1000
  · have above := some_rest.mp left
    rw [if_pos left,UInt64.toNat_add,whole]
    change (n.toNat/1000+1)%2^64 = _
    omega
  · have none := mt some_rest.mpr left
    rw [if_neg left,whole]
    omega

theorem effectiveDelayMs_words (sized : s.Sized) : (ofSettings s).effectiveDelayMs.toNat = s.effectiveDelayMs := by
  have gap := gapUs_words sized
  have fits := sized.delayMs
  have format : (ofSettings s).format = s.format := rfl
  have delay : (ofSettings s).delayMs = s.delayMs.map UInt64.ofNat := rfl
  unfold effectiveDelayMs Settings.effectiveDelayMs
  rw [format,delay]
  cases set : s.delayMs with
  | some ms => exact Nat.mod_eq_of_lt (fits ms set)
  | none => cases s.format with
    | tcp => rfl
    | rtu => exact (quotient_toNat _).trans (by rw [gap])

theorem held_timing (sized : s.Sized) : (ofSettings s).held.timing = s.timing := by
  have response : (ofSettings s).responseMs.toNat = s.responseMs := Nat.mod_eq_of_lt sized.responseMs
  have retries : (ofSettings s).maxRetries.toNat = s.maxRetries := Nat.mod_eq_of_lt sized.maxRetries
  unfold held Held.withMillis Held.timing
  rw [settled_toNat,settled_toNat,response,effectiveDelayMs_words sized,retries]
  rfl

end Words

theorem overrideMs?_lt (given : overrideMs? text = some ms) : ms < 60000 := by
  obtain ⟨n,_,given⟩ := Option.bind_eq_some_iff.mp given
  split at given
  · rename_i within
    cases given
    have := (Timing.inRange_iff.mp within).2
    omega
  · cases given

theorem retriesOf?_lt {n : Nat} (given : retriesOf? text = some n) : n < 2^32 := by
  obtain ⟨m,_,given⟩ := Option.bind_eq_some_iff.mp given
  split at given
  · rename_i below
    cases given
    exact below
  · cases given

theorem Sized.overridden (sized : s.Sized) (env : String → Option String) : (s.overridden env).Sized := by
  have time {ms : Nat} {x : Option String} (given : x.bind overrideMs? = some ms) : ms < 2^64 := by
    obtain ⟨text,_,given⟩ := Option.bind_eq_some_iff.mp given
    exact Nat.lt_trans (overrideMs?_lt given) (by decide)
  refine ⟨?_,?_,?_,sized.baudRate⟩
  · change (((env "MODBUS_RESPONSE_TIMEOUT_MS").bind overrideMs?).getD s.responseMs) < 2^64
    cases given : (env "MODBUS_RESPONSE_TIMEOUT_MS").bind overrideMs? with
    | none => exact sized.responseMs
    | some ms => exact time given
  · intro ms set
    rw [overridden_delay,delaySet?,← overrides_last] at set
    rcases Option.or_eq_some_iff.mp set with given | ⟨_,set⟩
    · exact time given
    · exact sized.delayMs ms set
  · change (((env "MODBUS_MAX_RETRIES").bind retriesOf?).getD s.maxRetries) < 2^32
    cases given : (env "MODBUS_MAX_RETRIES").bind retriesOf? with
    | none => exact sized.maxRetries
    | some n =>
      obtain ⟨text,_,given⟩ := Option.bind_eq_some_iff.mp given
      exact retriesOf?_lt given

theorem serialOfYaml?_baudRate {v : Yaml} {serial : SerialSettings} (read : serialOfYaml? v = some serial) :
    serial.baudRate < 2^32 := by
  obtain ⟨ms,_,read⟩ := Option.bind_eq_some_iff.mp read
  have made := Fault.toOption_ok read
  unfold SerialSettings.ofFields at made
  obtain ⟨port,_,made⟩ := Fault.bind_ok made
  obtain ⟨baud,found,made⟩ := Fault.bind_ok made
  obtain ⟨_,_,made⟩ := Fault.bind_ok made
  obtain ⟨_,_,made⟩ := Fault.bind_ok made
  obtain ⟨_,_,made⟩ := Fault.bind_ok made
  cases made
  exact Record.optional_bits found (by decide)

theorem ofYaml_sized (read : ofYaml text = .ok s) : s.Sized := by
  unfold ofYaml at read
  dsimp only at read
  split at read
  · cases read
  · have made := Fault.mapError_ok read
    unfold ofFields at made
    obtain ⟨format,_,made⟩ := Fault.bind_ok made
    obtain ⟨response,responseRead,made⟩ := Fault.bind_ok made
    obtain ⟨delay,delayRead,made⟩ := Fault.bind_ok made
    obtain ⟨retries,retriesRead,made⟩ := Fault.bind_ok made
    obtain ⟨_,_,made⟩ := Fault.bind_ok made
    obtain ⟨_,_,made⟩ := Fault.bind_ok made
    obtain ⟨_,_,made⟩ := Fault.bind_ok made
    obtain ⟨_,_,made⟩ := Fault.bind_ok made
    obtain ⟨_,_,made⟩ := Fault.bind_ok made
    obtain ⟨_,_,made⟩ := Fault.bind_ok made
    obtain ⟨_,_,made⟩ := Fault.bind_ok made
    obtain ⟨serial,serialRead,made⟩ := Fault.bind_ok made
    obtain ⟨_,_,made⟩ := Fault.bind_ok made
    cases made
    refine ⟨Record.optional_bits responseRead (by decide),?_,Record.optional_bits retriesRead (by decide),?_⟩
    · intro ms set
      obtain rfl : delay = some (some ms) := Option.join_eq_some_iff.mp set
      obtain ⟨v,read⟩ := Record.optional_some delayRead
      exact Record.bits?_lt (Record.nullable_some read)
    · cases serial with
      | none => exact show 9600 < 2^32 by decide
      | some serial =>
        obtain ⟨v,read⟩ := Record.optional_some serialRead
        exact serialOfYaml?_baudRate read

structure Usable (s : Settings) (env : String → Option String) : Prop where
  response : (s.overridden env).timing.responseUs =
    ((Timing.last? ((s.responseMs : Int)::given env "MODBUS_RESPONSE_TIMEOUT_MS")).getD 80).toNat*1000
  delay : (s.overridden env).timing.delayUs < 60000*1000
  set : ∀ ms, s.delaySet? env = some ms → (s.overridden env).timing.delayUs = if 0 < ms ∧ ms < 60000 then ms*1000 else 0
  stream : s.delaySet? env = none → s.format = .tcp → (s.overridden env).timing.delayUs = 0
  -- the transport waits for the same silence
  serial : s.delaySet? env = none → s.format = .rtu →
    (s.overridden env).timing.delayUs = (s.overridden env).effectiveDelayMs*1000 ∧ ∀ trace,
      (Stream.Link.rtu trace s.serial).gapUs ≤ (s.overridden env).timing.delayUs ∧
        (s.overridden env).timing.delayUs < (Stream.Link.rtu trace s.serial).gapUs+1000
  words : ((Words.ofSettings s).overridden env).held.timing = (s.overridden env).timing
  installed : ∀ catalog speaks devices first, Gateway.start (s.overridden env) catalog speaks devices = .ok first →
    first.engine.sessions.timing = (s.overridden env).timing

end Settings

namespace Gateway
variable {settings : Settings} {catalog : Catalog} {speaks : Format} {devices : Peer → Device} {s first : Station}

theorem spawnResponders_engine (s : Station) (count : Nat) : (s.spawnResponders count).engine = s.engine := by
  simp only [Station.spawnResponders]
  rw [Station.wakeAll_same]

theorem spawnWriters_engine (s : Station) (count : Nat) : (s.spawnWriters count).engine = s.engine := by
  simp only [Station.spawnWriters]
  rw [Station.wakeAll_same]

theorem start_timing (started : start settings catalog speaks devices = .ok first) :
    first.engine.sessions.timing = settings.timing := by
  unfold start at started
  split at started
  · cases started
  · split at started
    · cases started
    · cases Except.ok.inj started
      dsimp only
      rw [spawnWriters_engine,spawnResponders_engine]
      rfl

end Gateway

namespace Settings
variable {s : Settings}

theorem timing_usable (sized : s.Sized) (env : String → Option String) : Usable s env := by
  have delays := overridden_delay s env
  refine ⟨responseUs_last s env,delayUs_lt _,?_,?_,?_,?_,fun _ _ _ _ => Gateway.start_timing⟩
  · intro ms set
    rw [set] at delays
    have effective : (s.overridden env).effectiveDelayMs = ms := by
      unfold effectiveDelayMs
      rw [delays]
    have within : Timing.inRange ms = true ↔ 0 < ms ∧ ms < 60000 := by
      rw [Timing.inRange_iff]
      omega
    rw [delayUs_eq,effective]
    exact if_congr within rfl rfl
  · intro unset stream
    rw [unset] at delays
    have effective : (s.overridden env).effectiveDelayMs = 0 := by
      unfold effectiveDelayMs
      rw [delays,show (s.overridden env).format = .tcp from stream]
    rw [delayUs_eq,effective]
    rfl
  · intro unset serial
    obtain ⟨kept,least,most⟩ := delayUs_serial (s:=s.overridden env) serial (delays.trans unset)
    exact ⟨kept,fun _ => ⟨least,most⟩⟩
  · rw [Words.overridden_words,Words.held_timing (sized.overridden env)]

-- A serial line at 19200 baud. The file has a timeout that a cast makes negative, the environment another one.
def hurried : Settings :=
  {standard with format:=.rtu,responseMs:=0xFFFFFFFFFFFFFFFF,serial:={SerialSettings.standard with baudRate:=19200}}

def patience (name : String) : Option String := if name = "MODBUS_RESPONSE_TIMEOUT_MS" then some " +250" else none

theorem timing_usable_hurried : hurried.Sized ∧ (hurried.overridden patience).timing = ⟨250000,3000,0⟩ ∧
    hurried.serial.gapUs = 2002 ∧ Usable hurried patience := by
  have sized : hurried.Sized := ⟨by decide,fun ms set => (nomatch set),by decide,by decide⟩
  exact ⟨sized,by decide +kernel,by decide,timing_usable sized patience⟩

end Settings
end ModbusMaster
