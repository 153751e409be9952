import ModbusMaster.Text.Hex
namespace ModbusMaster.Text.Escape

-- How a text is shown when its characters have to be told apart: named escapes
-- for the common controls, `\u\x7b…\x7d` for the others.

def byNumber (c : Char) : List Char := "\\u\x7b".toList ++ (Hex.number 1 c.toNat).toList ++ ['\x7d']

-- Among the first 256 characters those without a shape of their own.
def isHiddenLatin (c : Char) : Bool :=
  let n := c.toNat
  n < 32 || (127 ≤ n && n ≤ 160) || n == 173

def quotedLatin (c : Char) : String :=
  let inside := match c with
    | '\x00' => ['\\','0']
    | '\t' => ['\\','t']
    | '\r' => ['\\','r']
    | '\n' => ['\\','n']
    | '\'' => ['\\','\'']
    | '\\' => ['\\','\\']
    | c => if isHiddenLatin c then byNumber c else [c]
  String.ofList ('\''::inside ++ ['\''])

end ModbusMaster.Text.Escape
