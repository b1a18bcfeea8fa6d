import Chiptune.Text.Digits
import Chiptune.Text.Printable

/-!
# Quoted text

Messages quote texts that scripts supply. Quotes and backslashes inside get a backslash, the
common controls their letter, and every other unprintable character its code point in braces.

## Main definitions

* `Text.quote` — a text in double quotes.
-/

namespace Chiptune
namespace Text

/-- One character of a quoted text. -/
def quoteChar (c : Char) : String :=
  if c = '"' then "\\\""
  else if c = '\\' then "\\\\"
  else if c = '\n' then "\\n"
  else if c = '\r' then "\\r"
  else if c = '\t' then "\\t"
  else if c = Char.ofNat 0 then "\\0"
  else if isPrintable c then c.toString
  else "\\u\x7b" ++ hexLower c.toNat ++ "\x7d"

/-- A text in double quotes. -/
def quote (s : String) : String :=
  "\"" ++ String.join (s.toList.map quoteChar) ++ "\""

end Text
end Chiptune
