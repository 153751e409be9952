import ModbusMaster.Point.Write
import ModbusMaster.Intent
import ModbusMaster.Proofs.Frame.Places
import ModbusMaster.Proofs.Point.Naming
namespace ModbusMaster.Checked

-- Values and topics read place by place. A text is cut at a count of octets, and where no character
-- begins there it cannot be.

section Swaps
variable {α : Type} {b a : List α} {i j k p words : Nat}

def swap? (b : List α) (i j : Nat) : Option (List α) := do
  let x ← b[i]?
  let y ← b[j]?
  return (b.set i y).set j x

def exchanged (i j p : Nat) : Nat := if p = i then j else if p = j then i else p

theorem swap?_some (first : i < b.length) (second : j < b.length) :
    ∃ a, swap? b i j = some a ∧ a.length = b.length ∧ ∀ p : Nat, a[p]? = b[exchanged i j p]? := by
  have x := List.getElem?_eq_getElem first
  have y := List.getElem?_eq_getElem second
  refine ⟨(b.set i b[j]).set j b[i],by rw [swap?,x,y]; rfl,by simp,fun p => ?_⟩
  unfold exchanged
  rw [List.getElem?_set,List.getElem?_set,List.length_set]
  by_cases here : p = j
  · by_cases there : p = i
    · subst here there
      simp [second]
    · have other : j ≠ i := here ▸ there
      rw [if_pos here.symm,if_pos second,if_neg there,if_pos here,x]
  · rw [if_neg (Ne.symm here)]
    by_cases there : p = i
    · rw [if_pos there.symm,if_pos first,if_pos there,y]
    · rw [if_neg (Ne.symm there),if_neg there,if_neg here]

def turn (words : Nat) (b : List α) (i : Nat) : Option (List α) := do
  let last ← minus? words 1
  let j ← minus? last i
  let b ← swap? b (2*i) (2*j)
  swap? b (2*i+1) (2*j+1)

def mirrored (words p : Nat) : Nat := if p < 2*words then 2*(words-1-p/2)+p%2 else p

-- The first and the last `k` registers have changed places.
structure Turned (words k : Nat) (b a : List α) : Prop where
  length : a.length = b.length
  places : ∀ p : Nat, a[p]? = b[if p/2 < k ∨ words ≤ p/2+k then mirrored words p else p]?

theorem turn_some (inside : 2*words ≤ b.length) (before : k < words/2) (turned : Turned words k b a) :
    ∃ d, turn words a k = some d ∧ Turned words (k+1) b d := by
  have length := turned.length
  obtain ⟨d,first,size,moved⟩ := swap?_some (b:=a) (i:=2*k) (j:=2*(words-1-k)) (by omega) (by omega)
  obtain ⟨e,second,whole,places⟩ := swap?_some (b:=d) (i:=2*k+1) (j:=2*(words-1-k)+1) (by omega) (by omega)
  refine ⟨e,?_,by omega,fun p => ?_⟩
  · unfold turn
    rw [minus?_some (by omega)]
    simp only [Option.bind_eq_bind,Option.bind_some,minus?_some (show k ≤ words-1 by omega),first,second]
  · rw [places,moved,turned.places]
    congr 1
    unfold exchanged mirrored
    split_ifs <;> omega

theorem turns_some (inside : 2*words ≤ b.length) (enough : k ≤ words/2) :
    ∃ a, (List.range k).foldlM (turn words) b = some a ∧ Turned words k b a := by
  induction k with
  | zero =>
    refine ⟨b,rfl,rfl,fun p => ?_⟩
    congr 1
    unfold mirrored
    split_ifs <;> omega
  | succ k ih =>
    obtain ⟨a,turns,turned⟩ := ih (by omega)
    obtain ⟨d,last,more⟩ := turn_some inside (by omega) turned
    refine ⟨d,?_,more⟩
    rw [List.range_succ,List.foldlM_append,turns]
    simp [last]

end Swaps

def swapOctets : Bytes → Option Bytes
  | x::y::rest => do
    let register ← swap? [x,y] 0 1
    let rest ← swapOctets rest
    return register ++ rest
  | rest => return rest

def reverseWords (b : Bytes) : Option Bytes := (List.range (b.length/2/2)).foldlM (turn (b.length/2)) b

def apply (o : WordOrder) (b : Bytes) : Option Bytes := do
  let b ← if o.wordSwap then reverseWords b else some b
  if o.byteSwap then swapOctets b else return b

def invert (o : WordOrder) (b : Bytes) : Option Bytes := do
  let b ← if o.byteSwap then swapOctets b else some b
  if o.wordSwap then reverseWords b else return b

theorem swapOctets_reads (b : Bytes) : swapOctets b = some (WordOrder.swapOctets b) := by
  fun_induction WordOrder.swapOctets b with
  | case1 x y rest ih =>
    rw [swapOctets,ih]
    rfl
  | case2 rest short =>
    rcases rest with _ | ⟨x,_ | ⟨y,rest⟩⟩
    · rfl
    · rfl
    · exact absurd rfl (short x y rest)

theorem reverseFrom_places (b acc : Bytes) (p : Nat) : (WordOrder.reverseFrom b acc)[p]? =
    if p < 2*(b.length/2) then b[mirrored (b.length/2) p]?
    else if p < 2*(b.length/2)+acc.length then acc[p-2*(b.length/2)]? else b[p-acc.length]? := by
  fun_induction WordOrder.reverseFrom b acc with
  | case1 x y rest acc ih =>
    have words : (x::y::rest).length/2 = rest.length/2+1 := by
      rw [List.length_cons,List.length_cons]
      omega
    have size : (x::y::acc).length = acc.length+2 := rfl
    rw [ih,words,size]
    generalize rest.length/2 = w
    by_cases front : p < 2*w
    · have further : mirrored (w+1) p = mirrored w p+2 := by
        unfold mirrored
        split_ifs
        all_goals omega
      rw [if_pos front,if_pos (by omega),further]
      rfl
    · rw [if_neg front]
      by_cases first : p < 2*(w+1)
      · rw [if_pos first,if_pos (by omega)]
        unfold mirrored
        rw [if_pos first]
        rcases (show p = 2*w ∨ p = 2*w+1 by omega) with rfl | rfl
        · have place : 2*(w+1-1-2*w/2)+2*w%2 = 0 := by omega
          rw [place,Nat.sub_self]
          rfl
        · have place : 2*(w+1-1-(2*w+1)/2)+(2*w+1)%2 = 1 := by omega
          rw [place,Nat.add_sub_cancel_left]
          rfl
      · rw [if_neg first]
        by_cases reversed : p < 2*(w+1)+acc.length
        · have place : p-2*w = p-2*(w+1)+2 := by omega
          rw [if_pos reversed,if_pos (by omega),place]
          rfl
        · have place : p-acc.length = p-(acc.length+2)+2 := by omega
          rw [if_neg reversed,if_neg (by omega),place]
          rfl
  | case2 rest acc short =>
    have odd : rest.length/2 = 0 := by
      rcases rest with _ | ⟨x,_ | ⟨y,rest⟩⟩
      · rfl
      · simp
      · exact absurd rfl (short x y rest)
    rw [odd,List.getElem?_append]
    simp

theorem reverseWords_reads (b : Bytes) : reverseWords b = some (WordOrder.reverseWords b) := by
  have inside : 2*(b.length/2) ≤ b.length := Nat.mul_div_le _ 2
  obtain ⟨a,turns,turned⟩ := turns_some inside (Nat.le_refl _)
  have same : a = WordOrder.reverseWords b := by
    refine List.ext_getElem? fun p => ?_
    rw [turned.places,WordOrder.reverseWords,reverseFrom_places]
    by_cases register : p < 2*(b.length/2)
    · rw [if_pos register]
      congr 1
      unfold mirrored
      split_ifs
      all_goals omega
    · have end_place : mirrored (b.length/2) p = p := if_neg register
      have past : ¬p < 2*(b.length/2)+([] : Bytes).length := register
      rw [if_neg register,if_neg past,end_place,ite_self]
      rfl
  rw [← same]
  exact turns

theorem apply_reads (o : WordOrder) (b : Bytes) : apply o b = some (o.apply b) := by
  unfold apply WordOrder.apply
  cases o.wordSwap <;> cases o.byteSwap <;> simp [swapOctets_reads,reverseWords_reads]

theorem invert_reads (o : WordOrder) (b : Bytes) : invert o b = some (o.invert b) := by
  unfold invert WordOrder.invert
  cases o.wordSwap <;> cases o.byteSwap <;> simp [swapOctets_reads,reverseWords_reads]

def fit (b : Bytes) (len : Nat) : Option Bytes :=
  if len ≤ b.length then do
    let edge ← minus? b.length len
    slice? b edge b.length
  else do
    let missing ← minus? len b.length
    return List.replicate missing 0 ++ b

theorem fit_reads (b : Bytes) (len : Nat) : fit b len = some (b.fit len) := by
  unfold fit Bytes.fit
  split
  · rename_i enough
    rw [minus?_some enough,Nat.sub_eq_zero_of_le enough]
    exact slice?_rest (Nat.sub_le _ _)
  · rename_i short
    have whole : b.length-len = 0 := by omega
    rw [minus?_some (by omega),whole]
    rfl

def pair? (b : Bytes) : Option Bytes := do
  let b0 ← b[0]?
  let b1 ← b[1]?
  return [b0,b1]

def four? (b : Bytes) : Option Bytes := do
  let b0 ← b[0]?
  let b1 ← b[1]?
  let b2 ← b[2]?
  let b3 ← b[3]?
  return [b0,b1,b2,b3]

def eight? (b : Bytes) : Option (Option Bytes) := do
  let piece ← slice? b 0 8
  return if piece.length = 8 then some piece else none

theorem pair?_whole {b : Bytes} (size : b.length = 2) : pair? b = some b := by
  match b,size with
  | [_,_],_ => rfl

theorem four?_whole {b : Bytes} (size : b.length = 4) : four? b = some b := by
  match b,size with
  | [_,_,_,_],_ => rfl

theorem eight?_whole {b : Bytes} (size : b.length = 8) : eight? b = some (some b) := by
  match b,size with
  | [_,_,_,_,_,_,_,_],_ => rfl

def integer? (b : Bytes) (width : UInt16) : Option (Option (Nat × Bytes)) :=
  if width = 1 then (pair? b).map fun b => some (16,b)
  else if width = 2 then (four? b).map fun b => some (32,b)
  else if width = 4 then (eight? b).map fun b => b.map fun b => (64,b)
  else return none

theorem integer?_reads {b : Bytes} {width : UInt16} (size : b.length = width.toNat*2) :
    integer? b width = some ((Scaled.integerBits? width).map fun bits => (bits,b)) := by
  unfold integer? Scaled.integerBits?
  split
  · rename_i narrow
    subst narrow
    rw [pair?_whole size]
    rfl
  · split
    · rename_i double
      subst double
      rw [four?_whole size]
      rfl
    · split
      · rename_i wide
        subst wide
        rw [eight?_whole size]
        rfl
      · rfl

def format (p : Point) (data : Bytes) : Option String :=
  if p.registerType.isBit || p.order.isIdentity then return Text.Hex.marked data
  else do
    let data ← invert p.order data
    return Text.Hex.marked data

theorem invert_identity {o : WordOrder} (same : o.isIdentity = true) (b : Bytes) : o.invert b = b := by
  obtain ⟨plain,straight⟩ : o.byteSwap = false ∧ o.wordSwap = false := by simpa [WordOrder.isIdentity] using same
  simp [WordOrder.invert,plain,straight]

theorem format_reads (p : Point) (data : Bytes) : format p data = some (p.format data) := by
  unfold format Point.format
  rw [invert_reads]
  cases p.registerType.isBit with
  | true => rfl
  | false =>
    cases same : p.order.isIdentity with
    | true =>
      rw [invert_identity same]
      rfl
    | false => rfl

def ofHex (hex : String) (t : ValueType) (scale : Double) (width : UInt16) : Option (Except Fault Scaled) :=
  match hexValue hex with
  | .error f => return .error f
  | .ok b =>
    let badWidth : Fault := .invalidData ("width " ++ toString width.toNat ++ " not valid for " ++ t.name)
    match t with
    | .boolean => return .ok (.bool (b.any (· != 0)))
    | .int => do
      let raw ← fit b (width.toNat*2)
      match ← integer? raw width with
      | none => return .error badWidth
      | some (bits,raw) =>
        let n := Scaled.signedOf bits raw.toNat
        return .ok (.int (((Double.ofInt n).mul scale).truncate (-0x8000000000000000) 0x7FFFFFFFFFFFFFFF))
    | .uint => do
      let raw ← fit b (width.toNat*2)
      match ← integer? raw width with
      | none => return .error badWidth
      | some (_,raw) => return .ok (.uint (((Double.ofNat raw.toNat).mul scale).truncate 0 0xFFFFFFFFFFFFFFFF).toNat)
    | .float =>
      if width ≠ 2 then return .error badWidth
      else do
        let raw ← fit b 4
        let raw ← four? raw
        return .ok (.float ((Double.ofSingleBits raw.toNat).mul scale))
    | .double =>
      if width ≠ 4 then return .error badWidth
      else do
        let raw ← fit b 8
        match ← eight? raw with
        | none => return .error badWidth
        | some raw => return .ok (.float ((Double.ofBits raw.toNat).mul scale))
    | .string => return .ok (.text (Scaled.trimNul (Text.Utf8.decode b)))

theorem ofHex_reads (hex : String) (t : ValueType) (scale : Double) (width : UInt16) :
    ofHex hex t scale width = some (Scaled.ofHex hex t scale width) := by
  unfold ofHex Scaled.ofHex
  cases hexValue hex with
  | error f => rfl
  | ok b =>
    have whole := integer?_reads (Bytes.length_fit b (width.toNat*2))
    cases t with
    | boolean => rfl
    | string => rfl
    | int =>
      simp only [fit_reads,whole,Option.bind_eq_bind,Option.bind_some]
      cases Scaled.integerBits? width <;> rfl
    | uint =>
      simp only [fit_reads,whole,Option.bind_eq_bind,Option.bind_some]
      cases Scaled.integerBits? width <;> rfl
    | float =>
      simp only [fit_reads,four?_whole (Bytes.length_fit b 4),Option.bind_eq_bind,Option.bind_some]
      by_cases single : width = 2
      · simp [single]
      · simp [single]
    | double =>
      simp only [fit_reads,eight?_whole (Bytes.length_fit b 8),Option.bind_eq_bind,Option.bind_some]
      by_cases wide : width = 4
      · simp [wide]
      · simp [wide]

def encode (p : Point) (value : String) : Option (Except Fault WriteValue) :=
  match p.registerType.writeFunction? p.width with
  | none => return .error (.invalidData ("Point " ++ p.key ++ " is read-only"))
  | some .writeSingleCoil => return .ok (.coil (WriteValue.coilOn value))
  | some .writeMultipleCoils => match hexValue value with
    | .error e => return .error e
    | .ok b => do
      let values ← fit b ((p.width.toNat+7)/8)
      return .ok (.coils p.width values)
  | some f => match hexValue value with
    | .error e => return .error e
    | .ok b => do
      let b ← fit b (p.width.toNat*2)
      let values ← apply p.order b
      if f = .writeSingleRegister then do
        let value ← word? values 0
        return .ok (.register value)
      else return .ok (.registers p.width values)

theorem writeFunction?_single {t : RegisterType} {width : UInt16}
    (single : t.writeFunction? width = some .writeSingleRegister) : width = 1 := by
  unfold RegisterType.writeFunction? at single
  split at single
  · split at single <;> cases single
  · split at single
    · assumption
    · cases single
  · cases single

theorem encode_reads (p : Point) (value : String) : encode p value = some (WriteValue.encode p value) := by
  unfold encode WriteValue.encode
  cases function : p.registerType.writeFunction? p.width with
  | none => rfl
  | some f =>
    cases hexValue value with
    | error e => cases f <;> rfl
    | ok b =>
      simp only [fit_reads,apply_reads,Option.bind_eq_bind,Option.bind_some]
      by_cases single : f = .writeSingleRegister
      · subst single
        -- a register by itself is of the two octets of one
        have size : (p.order.apply (b.fit (p.width.toNat*2))).length = 2 := by
          rw [WordOrder.length_apply,Bytes.length_fit,writeFunction?_single function]
          rfl
        match p.order.apply (b.fit (p.width.toNat*2)),size with
        | [_,_],_ => rfl
      · cases f <;> first | rfl | exact absurd rfl single

def octets : List Char → Nat
  | [] => 0
  | c::s => c.utf8Size+octets s

def part? (s : List Char) (n : Nat) : Option (List Char × List Char) :=
  if n = 0 then some ([],s) else match s with
    | [] => none
    | c::s => if c.utf8Size ≤ n then (part? s (n-c.utf8Size)).map fun (front,back) => (c::front,back) else none

def piece? (s : List Char) (i j : Nat) : Option (List Char) := do
  let (_,back) ← part? s i
  let n ← minus? j i
  let (piece,_) ← part? back n
  return piece

example : piece? ['é','/'] 1 3 = none := by decide

def find? (sep : Char) : List Char → Option Nat
  | [] => none
  | c::s => if c = sep then some 0 else (find? sep s).map (c.utf8Size+·)

theorem octets_append (front back : List Char) : octets (front ++ back) = octets front+octets back := by
  induction front with
  | nil => exact (Nat.zero_add _).symm
  | cons c front ih => rw [List.cons_append,octets,octets,ih,Nat.add_assoc]

theorem part?_append (front back : List Char) : part? (front ++ back) (octets front) = some (front,back) := by
  induction front with
  | nil =>
    unfold part?
    exact if_pos rfl
  | cons c front ih =>
    have some_octets := Char.utf8Size_pos c
    have size : octets (c::front) = c.utf8Size+octets front := rfl
    rw [List.cons_append,part?,size,if_neg (by omega)]
    dsimp only
    rw [if_pos (Nat.le_add_right _ _),Nat.add_sub_cancel_left,ih]
    rfl

theorem piece?_append (front middle back : List Char) :
    piece? (front ++ (middle ++ back)) (octets front) (octets front+octets middle) = some middle := by
  unfold piece?
  rw [part?_append,minus?_some (Nat.le_add_right _ _)]
  simp only [Option.bind_eq_bind,Option.bind_some,Nat.add_sub_cancel_left,part?_append]
  rfl

theorem find?_cutAt (sep : Char) (s : List Char) : find? sep s = (Text.cutAt sep s).map fun (front,_) => octets front := by
  induction s with
  | nil => rfl
  | cons c s ih =>
    rw [find?,ih]
    unfold Text.cutAt
    by_cases here : c = sep
    · simp [here,octets]
    · have other : (c != sep) = true := bne_iff_ne.mpr here
      simp only [List.dropWhile_cons,List.takeWhile_cons,other,if_true,if_neg here]
      cases s.dropWhile (· != sep) <;> rfl

theorem find?_takeWhile (sep : Char) (s : List Char) : (find? sep s).getD (octets s) = octets (s.takeWhile (· != sep)) := by
  induction s with
  | nil => rfl
  | cons c s ih =>
    rw [find?]
    by_cases here : c = sep
    · simp [here,octets]
    · have other : (c != sep) = true := bne_iff_ne.mpr here
      have more : octets (c::s.takeWhile (· != sep)) = c.utf8Size+octets (s.takeWhile (· != sep)) := rfl
      simp only [List.takeWhile_cons,other,if_true,if_neg here]
      rw [more,← ih]
      cases find? sep s <;> rfl

def device (i : Intent) : Option (Except Intent.Refusal String) :=
  let topic := i.topic.toList
  match find? '/' topic with
  | none => return .error (.noDevice i.topic)
  | some slash => do
    let start := slash+1
    let rest ← piece? topic start (octets topic)
    let stop := match find? '/' rest with
      | none => octets topic
      | some slash => start+slash
    let segment ← piece? topic start stop
    return if segment.isEmpty then .error (.noDevice i.topic) else .ok (String.ofList segment)

theorem device_reads (i : Intent) : device i = some i.device := by
  unfold device Intent.device
  generalize i.topic.toList = topic
  dsimp only
  rw [find?_cutAt]
  cases cut : Text.cutAt '/' topic with
  | none => rfl
  | some parts =>
    obtain ⟨front,back⟩ := parts
    obtain ⟨rfl,_⟩ := Text.cutAt_some cut
    let head := front ++ ['/']
    let segment := back.takeWhile (· != '/')
    have start : octets front+1 = octets head := (octets_append front ['/']).symm
    have whole : front ++ '/'::back = head ++ (back ++ []) := by simp [head]
    have size : octets (front ++ '/'::back) = octets head+octets back := by rw [whole,octets_append,List.append_nil]
    have rest : piece? (front ++ '/'::back) (octets head) (octets head+octets back) = some back := by
      rw [whole]
      exact piece?_append head back []
    have stop : (match find? '/' back with
        | none => octets head+octets back
        | some slash => octets head+slash) = octets head+octets segment := by
      rw [← find?_takeWhile]
      cases find? '/' back <;> rfl
    have taken : piece? (front ++ '/'::back) (octets head) (octets head+octets segment) = some segment := by
      have parts : back = segment ++ back.dropWhile (· != '/') := List.takeWhile_append_dropWhile.symm
      rw [whole,List.append_nil,parts]
      exact piece?_append head segment _
    simp only [Option.map_some,start,size,Option.bind_eq_bind,rest,Option.bind_some,stop,taken]
    rfl

structure Inside : Prop where
  tcpLength : ∀ b, tcpLength b = some (Frame.tcpLength? b)
  rtuLength : ∀ b, rtuLength b = some (Frame.rtuLength? b)
  decodeTcp : ∀ frame, decodeTcp frame = some (Response.decodeTcp frame)
  decodeRtu : ∀ frame, decodeRtu frame = some (Response.decodeRtu frame)
  data : ∀ r, data r = some (Response.data r)
  header : ∀ format frame, header format frame = some (Frame.header format frame)
  interpret : ∀ format frame, interpret format frame = some (Trace.interpret format frame)
  apply : ∀ o b, apply o b = some (WordOrder.apply o b)
  invert : ∀ o b, invert o b = some (WordOrder.invert o b)
  format : ∀ p b, format p b = some (Point.format p b)
  ofHex : ∀ hex t scale width, ofHex hex t scale width = some (Scaled.ofHex hex t scale width)
  encode : ∀ p value, encode p value = some (WriteValue.encode p value)
  device : ∀ i, device i = some (Intent.device i)

theorem reads_stay_inside : Inside :=
  ⟨tcpLength_reads,rtuLength_reads,decodeTcp_reads,decodeRtu_reads,data_reads,header_reads,interpret_reads,
    apply_reads,invert_reads,format_reads,ofHex_reads,encode_reads,device_reads⟩

end ModbusMaster.Checked
