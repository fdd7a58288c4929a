import PineCheck.Text.GraphemeExtend
import PineCheck.Text.Unprintable

/-!
# PineCheck — quoted characters and texts

How a character or a text of the script is shown inside a message: in quotes,
with the usual short escapes, and with every character that has no shape of its
own written as a number in hexadecimal.
-/

namespace PineCheck.Text

/-- One character between `quote` marks. Of the two quote marks only the one in
use is escaped. -/
def escapeChar (quote c : Char) : List Char :=
  if c = '\x00' then ['\\', '0']
  else if c = '\t' then ['\\', 't']
  else if c = '\r' then ['\\', 'r']
  else if c = '\n' then ['\\', 'n']
  else if c = '\\' || c = quote then ['\\', c]
  -- such a character would change the quote mark before it, or not show at all
  else if isGraphemeExtend c || isUnprintable c then
    ['\\', 'u', '\x7b'] ++ Nat.toDigits 16 c.toNat ++ ['\x7d']
  else [c]

/-- A character in single quotes. -/
def quoteChar (c : Char) : String :=
  String.ofList (['\''] ++ escapeChar '\'' c ++ ['\''])

/-- A text in double quotes. -/
def quoteText (s : String) : String :=
  String.ofList (['"'] ++ s.toList.flatMap (escapeChar '"') ++ ['"'])

end PineCheck.Text
