import Mathlib.Data.Bool.AllAny
import Mathlib.Data.List.TakeWhile
import ModbusMaster.Point.Value
namespace ModbusMaster

-- Values in hexadecimal: which texts are read, what they are read as, and that reading undoes writing.

namespace Text
variable {before core after : List Char}

theorem trimEnd_around (solid : ∀ c ∈ core, isBlank c = false) (back : ∀ c ∈ after, isBlank c = true) :
    trimEnd (core ++ after) = core := by
  have back : ∀ c ∈ after.reverse, isBlank c = true := fun c member => back c (List.mem_reverse.mp member)
  rw [trimEnd,List.reverse_append,List.dropWhile_append_of_pos back]
  cases turned : core.reverse with
  | nil => simpa using turned.symm
  | cons c front =>
    have member : c ∈ core := List.mem_reverse.mp (turned ▸ List.mem_cons_self)
    rw [List.dropWhile_cons_of_neg (by simp [solid c member]),← turned,List.reverse_reverse]

theorem trim_around (front : ∀ c ∈ before, isBlank c = true) (solid : ∀ c ∈ core, isBlank c = false)
    (back : ∀ c ∈ after, isBlank c = true) : trim (before ++ core ++ after) = core := by
  rw [trim,trimStart,List.append_assoc,List.dropWhile_append_of_pos front]
  cases core with
  | nil =>
    rw [List.nil_append,List.dropWhile_eq_nil_iff.mpr back]
    rfl
  | cons c core =>
    rw [List.cons_append,List.dropWhile_cons_of_neg (by simp [solid c List.mem_cons_self])]
    exact trimEnd_around solid back

theorem trim_parts (s : List Char) : ∃ before after, s = before ++ trim s ++ after ∧
    (∀ c ∈ before, isBlank c = true) ∧ ∀ c ∈ after, isBlank c = true := by
  refine ⟨s.takeWhile isBlank,((trimStart s).reverse.takeWhile isBlank).reverse,?_,?_,?_⟩
  · rw [trim,trimEnd,List.append_assoc,← List.reverse_append,List.takeWhile_append_dropWhile,List.reverse_reverse,trimStart,
      List.takeWhile_append_dropWhile]
  · exact fun c member => List.mem_takeWhile_imp member
  · exact fun c member => List.mem_takeWhile_imp (List.mem_reverse.mp member)

-- A text as octets: characters up to 127 are one octet each, and no octet of any other is that low.

theorem octets_loop (b : ByteArray) (i : Nat) (seen : List UInt8) :
    ByteArray.toList.loop b i seen = seen.reverse ++ b.data.toList.drop i := by
  fun_induction ByteArray.toList.loop b i seen with
  | case1 i seen inside ih =>
    have inside' : i < b.data.toList.length := by simpa using inside
    have here : b.get! i = b.data.toList[i] := getElem!_pos b.data i inside
    rw [ih,here,List.drop_eq_getElem_cons inside',List.reverse_cons,List.append_assoc]
    rfl
  | case2 i seen outside =>
    rw [List.drop_eq_nil_of_le (by simpa using Nat.le_of_not_lt outside),List.append_nil]

theorem octets_ofList (s : List Char) : (String.ofList s).toUTF8.toList = s.flatMap String.utf8EncodeChar := by
  rw [String.toUTF8_eq_toByteArray,String.toByteArray_ofList,ByteArray.toList,octets_loop,List.utf8Encode]
  simp

theorem octets_low {c : Char} (low : c.toNat < 128) : String.utf8EncodeChar c = [UInt8.ofNat c.toNat] := by
  have below : c.val.toNat ≤ 127 := Nat.le_of_lt_succ low
  unfold String.utf8EncodeChar
  exact if_pos below

theorem octets_high {c : Char} (high : 128 ≤ c.toNat) : ∃ x rest, String.utf8EncodeChar c = x::rest ∧ 128 ≤ x.toNat := by
  have above : ¬c.val.toNat ≤ 127 := Nat.not_le_of_lt high
  unfold String.utf8EncodeChar
  dsimp only
  rw [if_neg above]
  split_ifs
  all_goals
    refine ⟨_,_,rfl,?_⟩
    rw [UInt8.toNat_ofNat']
    omega

namespace Hex

def alphabet : List Char :=
  ['0','1','2','3','4','5','6','7','8','9','a','b','c','d','e','f','A','B','C','D','E','F']

def worth (c : Char) : Nat :=
  ['0','1','2','3','4','5','6','7','8','9','A','B','C','D','E','F'].idxOf c.toUpper

def octet (c : Char) : UInt8 := UInt8.ofNat c.toNat

theorem worth_lt : ∀ c ∈ alphabet, worth c < 16 := List.all_iff_forall_prop.mp (by decide)
theorem alphabet_low : ∀ c ∈ alphabet, c.toNat < 128 := List.all_iff_forall_prop.mp (by decide)
theorem alphabet_solid : ∀ c ∈ alphabet, isBlank c = false := List.all_iff_forall_prop.mp (by decide)
theorem value?_octet : ∀ c ∈ alphabet, value? (octet c) = some (UInt8.ofNat (worth c)) :=
  List.all_iff_forall_prop.mp (by decide)
theorem upperDigit_worth : ∀ c ∈ alphabet, upperDigit (worth c) = c.toUpper := List.all_iff_forall_prop.mp (by decide)
theorem upperDigit_mem : ∀ n < 16, upperDigit n ∈ alphabet := by decide
theorem worth_upperDigit : ∀ n < 16, worth (upperDigit n) = n := by decide

theorem alphabet_of_value? : ∀ n < 256, value? (UInt8.ofNat n) ≠ none → n < 128 ∧ Char.ofNat n ∈ alphabet := by
  decide +kernel

def packed : List Char → Bytes
  | a::b::rest => UInt8.ofNat (worth a*16+worth b)::packed rest
  | _ => []

def numeral (digits : List Char) : Nat := digits.foldl (fun n c => n*16+worth c) 0

section Digits
variable {digits : List Char} {octets b : Bytes} {e : Refusal} {x y : Char} {place : Nat}

-- Digits are read in pairs, and so is what is said of them proved.
theorem pairs_induction {motive : List Char → Prop} (nil : motive [])
    (pair : ∀ x y rest, x ∈ alphabet → y ∈ alphabet → motive rest → motive (x::y::rest))
    (known : ∀ c ∈ digits, c ∈ alphabet) (even : digits.length%2 = 0) : motive digits := by
  fun_induction packed digits with
  | case1 x y rest ih =>
    refine pair x y rest (known x (by simp)) (known y (by simp)) (ih (fun c member => known c (by simp [member])) ?_)
    simp only [List.length_cons] at even
    omega
  | case2 digits single =>
    cases digits with
    | nil => exact nil
    | cons x digits => cases digits with
      | nil => exact absurd even Nat.one_ne_zero
      | cons y rest => exact absurd rfl (single x y rest)

theorem pair_toNat (high : x ∈ alphabet) (low : y ∈ alphabet) :
    (UInt8.ofNat (worth x*16+worth y)).toNat = worth x*16+worth y := by
  have high := worth_lt x high
  have low := worth_lt y low
  rw [UInt8.toNat_ofNat']
  omega

theorem decodeFrom_packed (known : ∀ c ∈ digits, c ∈ alphabet) (even : digits.length%2 = 0) (place : Nat) :
    decodeFrom place (digits.map octet) = .ok (packed digits) := by
  refine pairs_induction (motive:=fun ds => ∀ place, decodeFrom place (ds.map octet) = .ok (packed ds)) ?_ ?_ known even place
  · exact fun _ => rfl
  · intro x y rest high low ih place
    have joined : UInt8.ofNat (worth x)*16+UInt8.ofNat (worth y) = UInt8.ofNat (worth x*16+worth y) := by
      rw [UInt8.ofNat_add,UInt8.ofNat_mul]
      rfl
    simp only [List.map_cons,decodeFrom,value?_octet x high,value?_octet y low,ih,packed,joined]

theorem length_packed (known : ∀ c ∈ digits, c ∈ alphabet) (even : digits.length%2 = 0) :
    2*(packed digits).length = digits.length := by
  refine pairs_induction (motive:=fun ds => 2*(packed ds).length = ds.length) ?_ ?_ known even
  · rfl
  · intro x y rest _ _ ih
    rw [packed,List.length_cons,List.length_cons,List.length_cons,← ih]
    omega

theorem toNat_packed (known : ∀ c ∈ digits, c ∈ alphabet) (even : digits.length%2 = 0) :
    (packed digits).toNat = numeral digits := by
  refine pairs_induction (motive:=fun ds => ∀ n, (packed ds).foldl (fun n x => n*256+x.toNat) n =
    ds.foldl (fun n c => n*16+worth c) n) ?_ ?_ known even 0
  · exact fun _ => rfl
  · intro x y rest high low ih n
    rw [packed,List.foldl_cons,List.foldl_cons,List.foldl_cons,ih,pair_toNat high low]
    congr 1
    omega

theorem encodeUpper_packed (known : ∀ c ∈ digits, c ∈ alphabet) (even : digits.length%2 = 0) :
    encodeUpper (packed digits) = digits.map Char.toUpper := by
  refine pairs_induction (motive:=fun ds => encodeUpper (packed ds) = ds.map Char.toUpper) ?_ ?_ known even
  · rfl
  · intro x y rest high low ih
    have below := worth_lt y low
    have left : (worth x*16+worth y)/16 = worth x := by omega
    have right : (worth x*16+worth y)%16 = worth y := by omega
    unfold encodeUpper at ih ⊢
    rw [packed,List.flatMap_cons,ih,pair_toNat high low,left,right,upperDigit_worth x high,upperDigit_worth y low]
    rfl

theorem packed_encodeUpper (b : Bytes) : packed (encodeUpper b) = b := by
  induction b with
  | nil => rfl
  | cons x b ih =>
    have below := x.toNat_lt
    have whole : worth (upperDigit (x.toNat/16))*16+worth (upperDigit (x.toNat%16)) = x.toNat := by
      rw [worth_upperDigit _ (by omega),worth_upperDigit _ (by omega)]
      omega
    change UInt8.ofNat (worth (upperDigit (x.toNat/16))*16+worth (upperDigit (x.toNat%16)))::packed (encodeUpper b) = x::b
    rw [whole,UInt8.ofNat_toNat,ih]

theorem length_encodeUpper (b : Bytes) : (encodeUpper b).length = 2*b.length := by
  induction b with
  | nil => rfl
  | cons x b ih =>
    change (encodeUpper b).length+2 = 2*(b.length+1)
    rw [ih,Nat.mul_succ]

theorem encodeUpper_known (b : Bytes) : ∀ c ∈ encodeUpper b, c ∈ alphabet := by
  intro c member
  obtain ⟨x,_,member⟩ := List.mem_flatMap.mp member
  have below := x.toNat_lt
  simp only [List.mem_cons,List.not_mem_nil,or_false] at member
  rcases member with rfl | rfl
  · exact upperDigit_mem _ (by omega)
  · exact upperDigit_mem _ (by omega)

theorem pair_read {x y hi lo : UInt8} (first : value? x = some hi) (second : value? y = some lo)
    (rest : ∀ z ∈ octets, value? z ≠ none) : ∀ z ∈ x::y::octets, value? z ≠ none := by
  refine List.forall_mem_cons.mpr ⟨?_,List.forall_mem_cons.mpr ⟨?_,rest⟩⟩
  · exact first ▸ Option.some_ne_none hi
  · exact second ▸ Option.some_ne_none lo

theorem decodeFrom_error (even : octets.length%2 = 0) (refused : decodeFrom place octets = .error e) :
    ∃ front x back, octets = front ++ x::back ∧ (∀ y ∈ front, value? y ≠ none) ∧ value? x = none ∧
      e = .badDigit x (place+front.length) := by
  fun_induction decodeFrom place octets with
  | case1 => cases refused
  | case2 place x => exact absurd even Nat.one_ne_zero
  | case3 place x y rest bad =>
    cases refused
    exact ⟨[],x,y::rest,rfl,(fun _ member => nomatch member),bad,rfl⟩
  | case4 place x y rest hi first bad =>
    cases refused
    refine ⟨[x],y,rest,rfl,?_,bad,rfl⟩
    intro z member
    rw [List.mem_singleton.mp member,first]
    exact Option.some_ne_none hi
  | case5 place x y rest hi first lo second e' later ih =>
    cases refused
    have even : rest.length%2 = 0 := by
      simp only [List.length_cons] at even
      omega
    obtain ⟨front,z,back,rfl,digits,bad,rfl⟩ := ih even later
    refine ⟨x::y::front,z,back,rfl,pair_read first second digits,bad,?_⟩
    rw [List.length_cons,List.length_cons]
    congr 1
    omega
  | case6 => cases refused

theorem decodeFrom_ok (decoded : decodeFrom place octets = .ok b) : ∀ x ∈ octets, value? x ≠ none := by
  fun_induction decodeFrom place octets generalizing b with
  | case1 => exact fun x member => nomatch member
  | case2 => cases decoded
  | case3 => cases decoded
  | case4 => cases decoded
  | case5 => cases decoded
  | case6 place x y rest hi first lo second c rest_ok ih =>
    exact pair_read first second (ih rest_ok)

def evenly (digits : List Char) : List Char := if digits.length%2 = 1 then '0'::digits else digits

theorem length_evenly (digits : List Char) : (evenly digits).length = 2*((digits.length+1)/2) := by
  unfold evenly
  split
  · rw [List.length_cons]
    omega
  · omega

theorem evenly_even (digits : List Char) : (evenly digits).length%2 = 0 := by
  rw [length_evenly]
  exact Nat.mul_mod_right 2 _

theorem evenly_known (known : ∀ c ∈ digits, c ∈ alphabet) : ∀ c ∈ evenly digits, c ∈ alphabet := by
  unfold evenly
  split
  · exact List.forall_mem_cons.mpr ⟨by decide,known⟩
  · exact known

theorem numeral_evenly (digits : List Char) : numeral (evenly digits) = numeral digits := by
  unfold evenly
  split
  · rfl
  · rfl

theorem evened_octets (digits : List Char) : evened (digits.map octet) = (evenly digits).map octet := by
  simp only [evened,evenly,List.length_map,beq_iff_eq]
  split
  · rfl
  · rfl

theorem known_octets (known : ∀ c ∈ digits, c ∈ alphabet) : digits.flatMap String.utf8EncodeChar = digits.map octet := by
  induction digits with
  | nil => rfl
  | cons c digits ih =>
    obtain ⟨first,known⟩ := List.forall_mem_cons.mp known
    rw [List.flatMap_cons,octets_low (alphabet_low c first),ih known]
    rfl

theorem known_of_octets {s : List Char} (read : ∀ x ∈ s.flatMap String.utf8EncodeChar, value? x ≠ none) :
    ∀ c ∈ s, c ∈ alphabet := by
  intro c member
  have read : ∀ x ∈ String.utf8EncodeChar c, value? x ≠ none := fun x inside =>
    read x (List.mem_flatMap.mpr ⟨c,member,inside⟩)
  rcases Nat.lt_or_ge c.toNat 128 with low | high
  · rw [octets_low low] at read
    have digit := (alphabet_of_value? c.toNat (by omega) (read _ List.mem_cons_self)).2
    rwa [Char.ofNat_toNat] at digit
  · obtain ⟨x,rest,octets,high⟩ := octets_high high
    have digit := read x (octets ▸ List.mem_cons_self)
    rw [← UInt8.ofNat_toNat (x:=x)] at digit
    have low := (alphabet_of_value? x.toNat x.toNat_lt digit).1
    omega

end Digits

section Texts
variable {text : String} {digits s : List Char} {b : Bytes} {f : Fault}

def marks : List (List Char) := [[],['0','x'],['0','X']]

structure Written (text : String) (digits : List Char) : Prop where
  some : digits ≠ []
  known : ∀ c ∈ digits, c ∈ alphabet
  laid : ∃ before mark after, text.toList = before ++ (mark ++ digits) ++ after ∧ mark ∈ marks ∧
    (∀ c ∈ before, isBlank c = true) ∧ ∀ c ∈ after, isBlank c = true

theorem stripMark_mark (s : List Char) : ∃ mark ∈ marks, s = mark ++ stripMark s := by
  unfold stripMark
  split
  · exact ⟨['0','x'],by decide,rfl⟩
  · exact ⟨['0','X'],by decide,rfl⟩
  · exact ⟨[],by decide,rfl⟩

theorem stripMark_known {mark : List Char} (known : ∀ c ∈ digits, c ∈ alphabet) (marked : mark ∈ marks) :
    stripMark (mark ++ digits) = digits := by
  simp only [marks,List.mem_cons,List.not_mem_nil,or_false] at marked
  rcases marked with rfl | rfl | rfl
  · -- no digit is a mark
    unfold stripMark
    split
    · rename_i rest same
      exact absurd (known 'x' (by rw [← List.nil_append digits,same]; simp)) (by decide)
    · rename_i rest same
      exact absurd (known 'X' (by rw [← List.nil_append digits,same]; simp)) (by decide)
    · rfl
  · rfl
  · rfl

theorem written_iff : Written text digits ↔
    stripMark (trim text.toList) = digits ∧ digits ≠ [] ∧ ∀ c ∈ digits, c ∈ alphabet := by
  constructor
  · rintro ⟨some,known,before,mark,after,laid,marked,front,back⟩
    have solid : ∀ c ∈ mark ++ digits, isBlank c = false := by
      intro c member
      rcases List.mem_append.mp member with member | member
      · have solid : ∀ c ∈ marks.flatten, isBlank c = false := List.all_iff_forall_prop.mp (by decide)
        exact solid c (List.mem_flatten_of_mem marked member)
      · exact alphabet_solid c (known c member)
    rw [laid,trim_around front solid back]
    exact ⟨stripMark_known known marked,some,known⟩
  · rintro ⟨rfl,some,known⟩
    obtain ⟨before,after,parts,front,back⟩ := trim_parts text.toList
    obtain ⟨mark,marked,laid⟩ := stripMark_mark (trim text.toList)
    exact ⟨some,known,before,mark,after,laid ▸ parts,marked,front,back⟩

theorem hexValue_written (written : Written text digits) : hexValue text = .ok (packed (evenly digits)) := by
  obtain ⟨stripped,some,known⟩ := written_iff.mp written
  have present : (digits.map octet).isEmpty = false := by simpa using some
  rw [hexValue_ok_iff,parse?,stripped,octets_ofList,known_octets known,present,if_neg Bool.false_ne_true,evened_octets]
  exact decodeFrom_packed (evenly_known known) (evenly_even digits) 0

theorem written_of_hexValue (valued : hexValue text = .ok b) : Written text (stripMark (trim text.toList)) := by
  rw [hexValue_ok_iff,parse?,octets_ofList] at valued
  split at valued
  · cases valued
  · rename_i present
    refine written_iff.mpr ⟨rfl,?_,?_⟩
    · intro empty
      rw [empty] at present
      exact present rfl
    · have read := decodeFrom_ok valued
      refine known_of_octets fun x member => read x ?_
      unfold evened
      split
      · exact List.mem_cons_of_mem _ member
      · exact member

def canonical (digits : List Char) : String := "0x" ++ String.ofList ((evenly digits).map Char.toUpper)

theorem written_marked (some : b ≠ []) : Written (marked b) (encodeUpper b) := by
  refine ⟨?_,encodeUpper_known b,[],['0','x'],[],?_,by decide,(fun _ member => nomatch member),fun _ member => nomatch member⟩
  · intro empty
    have length := length_encodeUpper b
    rw [empty,List.length_nil] at length
    exact some (List.eq_nil_of_length_eq_zero (by omega))
  · simp [marked,upper]

theorem hexValue_marked (some : b ≠ []) : hexValue (marked b) = .ok b := by
  have even : evenly (encodeUpper b) = encodeUpper b := by
    rw [evenly,if_neg (by rw [length_encodeUpper]; omega)]
  rw [hexValue_written (written_marked some),even,packed_encodeUpper]

inductive Refused (text : String) : Fault → Prop where
  | empty (nothing : stripMark (trim text.toList) = []) : Refused text (.invalidData ("Empty hex value '" ++ text ++ "'"))
  | digit {front back : Bytes} {x : UInt8}
      (octets : evened ((stripMark (trim text.toList)).flatMap String.utf8EncodeChar) = front ++ x::back)
      (digits : ∀ y ∈ front, value? y ≠ none) (bad : value? x = none) :
      Refused text (.invalidData ("Invalid hex value '" ++ text ++ "': Invalid character " ++
        Escape.quotedLatin (Char.ofNat x.toNat) ++ " at position " ++ toString front.length))

theorem evened_even (b : Bytes) : (evened b).length%2 = 0 := by
  unfold evened
  split
  · rename_i odd
    have odd := beq_iff_eq.mp odd
    rw [List.length_cons]
    omega
  · rename_i even
    have even := mt beq_iff_eq.mpr even
    omega

theorem hexValue_error (refused : hexValue text = .error f) : Refused text f := by
  unfold hexValue at refused
  cases parsed : parse? text with
  | ok b =>
    rw [parsed] at refused
    cases refused
  | error e =>
    rw [parsed] at refused
    rw [parse?,octets_ofList] at parsed
    split at parsed
    · rename_i empty
      cases parsed
      cases refused
      refine .empty ?_
      cases left : stripMark (trim text.toList) with
      | nil => rfl
      | cons c rest =>
        rw [left,List.flatMap_cons] at empty
        exact absurd (List.append_eq_nil_iff.mp (List.isEmpty_iff.mp empty)).1 String.utf8EncodeChar_ne_nil
    · obtain ⟨front,x,back,octets,digits,bad,rfl⟩ := decodeFrom_error (evened_even _) parsed
      cases refused
      rw [Nat.zero_add]
      exact .digit octets digits bad

-- A text is a value exactly if it is written as one, and it is read as the number of its digits;
-- what is read is written in one form, which reads the same.
structure Reads (text : String) : Prop where
  accepts : (∃ b, hexValue text = .ok b) ↔ ∃ digits, Written text digits
  refuses : ∀ f, hexValue text = .error f → Refused text f
  gives : ∀ digits, Written text digits → ∃ b, hexValue text = .ok b ∧ b.length = (digits.length+1)/2 ∧
    b.toNat = numeral digits ∧ marked b = canonical digits ∧ hexValue (canonical digits) = .ok b

theorem marked_packed (known : ∀ c ∈ digits, c ∈ alphabet) : marked (packed (evenly digits)) = canonical digits := by
  rw [marked,upper,encodeUpper_packed (evenly_known known) (evenly_even digits)]
  rfl

theorem reads (text : String) : Reads text := by
  have gives (digits : List Char) (written : Written text digits) : ∃ b, hexValue text = .ok b ∧
      b.length = (digits.length+1)/2 ∧ b.toNat = numeral digits ∧ marked b = canonical digits ∧
        hexValue (canonical digits) = .ok b := by
    have known := evenly_known written.known
    have twice := length_packed known (evenly_even digits)
    rw [length_evenly] at twice
    have length : (packed (evenly digits)).length = (digits.length+1)/2 := by omega
    have present : packed (evenly digits) ≠ [] := by
      intro empty
      have some := List.length_pos_iff.mpr written.some
      rw [empty,List.length_nil] at length
      omega
    have form := marked_packed written.known
    refine ⟨_,hexValue_written written,length,?_,form,form ▸ hexValue_marked present⟩
    rw [toNat_packed known (evenly_even digits),numeral_evenly]
  refine ⟨⟨fun ⟨b,valued⟩ => ⟨_,written_of_hexValue valued⟩,fun ⟨digits,written⟩ => ?_⟩,fun f => hexValue_error,gives⟩
  obtain ⟨b,valued,_⟩ := gives digits written
  exact ⟨b,valued⟩

theorem hexadecimal_read_back (text : String) (b : Bytes) : Reads text ∧ (b ≠ [] → hexValue (marked b) = .ok b) :=
  ⟨reads text,hexValue_marked⟩

-- An odd count of digits in both cases between blanks that are not all in one octet.
theorem hexadecimal_read_back_wide : Written "\u2003 0XaB7\t" ['a','B','7'] ∧ canonical ['a','B','7'] = "0x0AB7" ∧
    (∃ b, hexValue "\u2003 0XaB7\t" = .ok b ∧ b.toNat = 2743) ∧ hexValue (marked [0,42]) = .ok [0,42] := by
  have written : Written "\u2003 0XaB7\t" ['a','B','7'] :=
    ⟨by decide,List.all_iff_forall_prop.mp (by decide),['\u2003',' '],['0','X'],['\t'],by decide +kernel,by decide,
      List.all_iff_forall_prop.mp (by decide),List.all_iff_forall_prop.mp (by decide)⟩
  obtain ⟨reads,back⟩ := hexadecimal_read_back "\u2003 0XaB7\t" [0,42]
  obtain ⟨b,valued,_,number,_⟩ := reads.gives _ written
  exact ⟨written,by decide +kernel,⟨b,valued,number⟩,back (by decide)⟩

end Texts
end Hex
end Text
end ModbusMaster
