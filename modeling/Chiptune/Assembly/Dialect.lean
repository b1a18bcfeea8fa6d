import Chiptune.Text.Digits

/-!
# Assembler dialects

Output is written for one of two assemblers, which differ in their directives, their comment
mark and their hexadecimal numbers.

## Main definitions

* `Dialect` — the assemblers.
* `Dialect.hex` — a byte as the assembler reads it.
-/

namespace Chiptune

/-- An assembler's way of writing. -/
inductive Dialect where
  /-- The cross assembler for eight-bit processors. -/
  | wlaDx
  /-- The assembler for the 68000. -/
  | gnuAs
  deriving DecidableEq, Repr, Inhabited

namespace Dialect

/-- The tag of a dialect in options and in structured output. -/
def tag : Dialect → String
  | wlaDx => "wla-dx"
  | gnuAs => "gnu-as"

/-- The dialect with a given tag. -/
def ofTag? (s : String) : Option Dialect := [wlaDx, gnuAs].find? (·.tag == s)

/-- The directive for bytes. -/
def byteDirective : Dialect → String
  | wlaDx => ".db"
  | gnuAs => ".byte"

/-- The directive for words. -/
def wordDirective : Dialect → String
  | wlaDx => ".dw"
  | gnuAs => ".word"

/-- The mark that starts a comment. -/
def comment : Dialect → String
  | wlaDx => ";"
  | gnuAs => "|"

/-- A byte in hexadecimal. -/
def hex : Dialect → UInt8 → String
  | wlaDx, b => "$" ++ Text.hexByte b
  | gnuAs, b => "0x" ++ Text.hexByte b

/-- The directive that has to stand before words, if any. -/
def wordAlignment? : Dialect → Option String
  | wlaDx => none
  | gnuAs => some ".even"

end Dialect

end Chiptune
