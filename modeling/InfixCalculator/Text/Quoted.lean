import InfixCalculator.Text.Printable

/-!
# Quoted texts

A text between double quotes on one line, with nothing in it that does not
print.  A double quote and a backslash are escaped, four control characters
have escapes of their own, and any other character that is not printable is
written by its code point.
-/

namespace InfixCalculator.Text

def escape (c : Char) : List Char :=
  match c with
  | '"' => ['\\', '"']
  | '\\' => ['\\', '\\']
  | '\t' => ['\\', 't']
  | '\n' => ['\\', 'n']
  | '\r' => ['\\', 'r']
  | '\x00' => ['\\', '0']
  | _ =>
    if isPrintable c then [c]
    else ['\\', 'u', '\x7b'] ++ Nat.toDigits 16 c.toNat ++ ['\x7d']

def quote (text : String) : String :=
  .ofList ('"' :: text.toList.flatMap escape ++ ['"'])

end InfixCalculator.Text
