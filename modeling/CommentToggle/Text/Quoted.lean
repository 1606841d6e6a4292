import CommentToggle.Text.Basic
import CommentToggle.Text.Case
import CommentToggle.Text.PrintableTable

/-!
Text shown in quotes. Single quotes are used unless the text holds a single quote
and no double quote. The quote in use, the backslash and what is not printable
are escaped, the latter by code point in two, four or eight hexadecimal digits.
-/
namespace CommentToggle.Text

def isPrintable (c : Char) : Bool := !inRanges unprintableRanges c

/-- The last `width` hexadecimal digits. -/
def hexDigits : Nat → Nat → Text
  | 0, _ => []
  | width + 1, n => hexDigits width (n / 16) ++ [Nat.digitChar (n % 16)]

def hexValue? (c : Char) : Option Nat :=
  if c.isDigit then some (c.toNat - 48)
  else if 'a' ≤ c && c ≤ 'f' then some (c.toNat - 87)
  else if 'A' ≤ c && c ≤ 'F' then some (c.toNat - 55)
  else none

def escapeChar (quote c : Char) : Text :=
  if c = quote || c = '\\' then ['\\', c]
  else if c = '\t' then ['\\', 't']
  else if c = '\n' then ['\\', 'n']
  else if c = '\r' then ['\\', 'r']
  else if isPrintable c then [c]
  else if c.toNat < 0x100 then '\\' :: 'x' :: hexDigits 2 c.toNat
  else if c.toNat < 0x10000 then '\\' :: 'u' :: hexDigits 4 c.toNat
  else '\\' :: 'U' :: hexDigits 8 c.toNat

def quoteFor (t : Text) : Char := if '\'' ∈ t && '"' ∉ t then '"' else '\''

def quoted (t : Text) : Text :=
  let q := quoteFor t
  q :: t.flatMap (escapeChar q) ++ [q]

end CommentToggle.Text
