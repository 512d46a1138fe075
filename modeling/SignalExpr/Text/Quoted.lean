import SignalExpr.Text.Printable

/-!
Text between double quotes, as messages show it: on one line, with a backslash before what could
be misread and the code point of what cannot be seen.
-/

namespace SignalExpr.Text

/-- A code point in hexadecimal, in braces. -/
def codePoint (c : Char) : List Char :=
  ['\\', 'u', Char.ofNat 0x7b] ++ Nat.toDigits 16 c.toNat ++ [Char.ofNat 0x7d]

/-- One character of quoted text. -/
def escape (c : Char) : List Char :=
  match c with
  | '"' => ['\\', '"']
  | '\\' => ['\\', '\\']
  | '\n' => ['\\', 'n']
  | '\r' => ['\\', 'r']
  | '\t' => ['\\', 't']
  | c =>
      if c.toNat = 0 then ['\\', '0']
      else if isPrintable c then [c]
      else codePoint c

/-- A text in double quotes. -/
def quote (text : String) : String :=
  String.ofList ('"' :: text.toList.flatMap escape ++ ['"'])

end SignalExpr.Text
