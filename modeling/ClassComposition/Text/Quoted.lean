import ClassComposition.Text.Unseen

/-!
# Quoted text

A text between double quotes, as diagnostics show it: the quote and the backslash are escaped, tab, line
feed, carriage return and NUL have letters, and every other character without a visible form is written
as its code point in hexadecimal between braces.

## Main definitions

* `escapeChar` — how one character is written.
* `quoted` — the text between quotes.
-/

namespace ClassComposition.Text

/-- How one character is written between quotes. -/
def escapeChar (c : Char) : List Char :=
  match c with
  | '"' => ['\\', '"']
  | '\\' => ['\\', '\\']
  | '\n' => ['\\', 'n']
  | '\r' => ['\\', 'r']
  | '\t' => ['\\', 't']
  | c =>
    if c.toNat = 0 then ['\\', '0']
    else if isUnseen c then ['\\', 'u', '\x7b'] ++ Nat.toDigits 16 c.toNat ++ ['\x7d']
    else [c]

/-- A text between double quotes. -/
def quoted (s : String) : String :=
  String.ofList ('"' :: s.toList.flatMap escapeChar ++ ['"'])

end ClassComposition.Text
