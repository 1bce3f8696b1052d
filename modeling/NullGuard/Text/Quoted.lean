import NullGuard.Text.Hidden

namespace NullGuard.Text

/-- A code in hexadecimal, in braces. -/
def braced (code : Nat) : List Char :=
  '\x7b' :: Nat.toDigits 16 code ++ ['\x7d']

/-- A character as it stands between quotes. -/
def escaped (c : Char) : List Char :=
  match c with
  | '\x00' => ['\\', '0']
  | '\t' => ['\\', 't']
  | '\r' => ['\\', 'r']
  | '\n' => ['\\', 'n']
  | '\\' => ['\\', '\\']
  | '"' => ['\\', '"']
  | c => if isHidden c then '\\' :: 'u' :: braced c.toNat else [c]

def quoted (text : String) : String :=
  String.ofList ('"' :: text.toList.flatMap escaped ++ ['"'])

/-- A list of texts in quotes, in square brackets. -/
def quotedList (texts : List String) : String :=
  "[" ++ ", ".intercalate (texts.map quoted) ++ "]"

end NullGuard.Text
