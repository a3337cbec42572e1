import DataBinding.Text.Hidden

/-!
# Quoted text

A text between double quotes, with escapes for the quote, the backslash, line breaks and whatever
would not show as a character of its own.
-/

namespace DataBinding.Text

/-- How a character is written between double quotes. A hidden one is written by its code
point. -/
def quoteChar (c : Char) : List Char :=
  if c = '\x00' then ['\\', '0']
  else if c = '\t' then ['\\', 't']
  else if c = '\n' then ['\\', 'n']
  else if c = '\r' then ['\\', 'r']
  else if c = '\x22' || c = '\\' then ['\\', c]
  else if isHidden c then "\\u\x7b".toList ++ Nat.toDigits 16 c.toNat ++ "\x7d".toList
  else [c]

/-- A text between double quotes. -/
def quoted (text : String) : String :=
  String.ofList ('\x22' :: text.toList.flatMap quoteChar ++ ['\x22'])

end DataBinding.Text
