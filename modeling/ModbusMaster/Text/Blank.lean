namespace ModbusMaster.Text

def isBlank (c : Char) : Bool :=
  let n := c.toNat
  (9 ≤ n && n ≤ 13) || n == 0x20 || n == 0x85 || n == 0xA0 || n == 0x1680 ||
    (0x2000 ≤ n && n ≤ 0x200A) || n == 0x2028 || n == 0x2029 || n == 0x202F || n == 0x205F || n == 0x3000

def trimStart (s : List Char) : List Char := s.dropWhile isBlank
def trimEnd (s : List Char) : List Char := (s.reverse.dropWhile isBlank).reverse

def trim (s : List Char) : List Char := trimEnd (trimStart s)

def trimmed (s : String) : String := String.ofList (trim s.toList)

-- Splits at every `sep`; the pieces are one more than the separators.
def splitAt (sep : Char) : List Char → List (List Char)
  | [] => [[]]
  | c::rest =>
    if c = sep then []::splitAt sep rest
    else match splitAt sep rest with
      | piece::more => (c::piece)::more
      | [] => [[c]]

def cutAt (sep : Char) (s : List Char) : Option (List Char × List Char) :=
  match s.dropWhile (· != sep) with
  | _::after => some (s.takeWhile (· != sep),after)
  | [] => none

def cutAtLast (sep : Char) (s : List Char) : Option (List Char × List Char) :=
  (cutAt sep s.reverse).map fun (after,before) => (before.reverse,after.reverse)

def isDigit (c : Char) : Bool := '0' ≤ c && c ≤ '9'

def digits? (s : List Char) : Option Nat :=
  if s.isEmpty || !s.all isDigit then none
  else some (s.foldl (fun n c => n*10+(c.toNat-48)) 0)

def natural? : List Char → Option Nat
  | '+'::rest => digits? rest
  | s => digits? s

def integer? : List Char → Option Int
  | '-'::rest => (digits? rest).map fun n => -(n : Int)
  | s => (natural? s).map Int.ofNat

def lowerAscii (s : List Char) : List Char :=
  s.map fun c => if 'A' ≤ c && c ≤ 'Z' then Char.ofNat (c.toNat+32) else c

def upperAscii (s : List Char) : List Char :=
  s.map fun c => if 'a' ≤ c && c ≤ 'z' then Char.ofNat (c.toNat-32) else c

def padded (width n : Nat) : String :=
  let s := toString n
  String.ofList (List.replicate (width-s.length) '0') ++ s

theorem trimStart_isBlank_head {s : List Char} {c : Char} {rest : List Char} (h : trimStart s = c::rest) :
    isBlank c = false := by
  have := List.head?_dropWhile_not isBlank s
  rw [show s.dropWhile isBlank = c::rest from h] at this
  simpa using this

end ModbusMaster.Text
