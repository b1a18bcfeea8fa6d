import Chiptune.Json.Basic
import Chiptune.Text.Digits

/-!
# Writing JSON

Structured output has each element of an array and each member of an object on a line of its
own, indented by two blanks for each level.

## Main definitions

* `Json.quote` — a string with its escapes.
* `Json.pretty` — a value on several lines.
* `Json.compact` — a value on one line.
-/

namespace Chiptune
namespace Json

/-- One character of a string. -/
def quoteChar (c : Char) : String :=
  if c = '"' then "\\\""
  else if c = '\\' then "\\\\"
  else if c = '\n' then "\\n"
  else if c = '\r' then "\\r"
  else if c = '\t' then "\\t"
  else if c = Char.ofNat 8 then "\\b"
  else if c = Char.ofNat 12 then "\\f"
  else if c.toNat < 0x10 then "\\u000" ++ Text.hexLower c.toNat
  else if c.toNat < 0x20 then "\\u00" ++ Text.hexLower c.toNat
  else c.toString

/-- A string with its escapes, in double quotes. -/
def quote (s : String) : String := s.foldl (fun t c => t ++ quoteChar c) "\"" ++ "\""

/-- The text of a value without parts. Only values of that kind that are written are given one. -/
def atom : Json → String
  | bool true => "true"
  | bool false => "false"
  | int n => toString n
  | string s => quote s
  | _ => "null"

/-- The start of a line. -/
def newline (indent : Nat) : String := "\n".pushn ' ' indent

mutual

/-- Writes a value on several lines after a text. Its lines but the first are indented. -/
def prettyOnto (indent : Nat) (out : String) : Json → String
  | array [] => out ++ "[]"
  | array (v :: vs) =>
    let inner := indent + 2
    prettyItems inner (prettyOnto inner (out ++ "[" ++ newline inner) v) vs ++ newline indent ++ "]"
  | object [] => out ++ "\x7b\x7d"
  | object ((k, v) :: ms) =>
    let inner := indent + 2
    prettyMembers inner
      (prettyOnto inner (out ++ "\x7b" ++ newline inner ++ quote k ++ ": ") v) ms ++
      newline indent ++ "\x7d"
  | v => out ++ atom v

/-- Writes elements after the first. -/
def prettyItems (indent : Nat) (out : String) : List Json → String
  | [] => out
  | v :: vs => prettyItems indent (prettyOnto indent (out ++ "," ++ newline indent) v) vs

/-- Writes members after the first. -/
def prettyMembers (indent : Nat) (out : String) : List (String × Json) → String
  | [] => out
  | (k, v) :: ms =>
    prettyMembers indent
      (prettyOnto indent (out ++ "," ++ newline indent ++ quote k ++ ": ") v) ms

end

/-- A value on several lines. -/
def pretty (v : Json) : String := prettyOnto 0 "" v

mutual

/-- Writes a value on the line of a text. -/
def compactOnto (out : String) : Json → String
  | array [] => out ++ "[]"
  | array (v :: vs) => compactItems (compactOnto (out ++ "[") v) vs ++ "]"
  | object [] => out ++ "\x7b\x7d"
  | object ((k, v) :: ms) =>
    compactMembers (compactOnto (out ++ "\x7b" ++ quote k ++ ":") v) ms ++ "\x7d"
  | v => out ++ atom v

/-- Writes elements after the first. -/
def compactItems (out : String) : List Json → String
  | [] => out
  | v :: vs => compactItems (compactOnto (out ++ ",") v) vs

/-- Writes members after the first. -/
def compactMembers (out : String) : List (String × Json) → String
  | [] => out
  | (k, v) :: ms => compactMembers (compactOnto (out ++ "," ++ quote k ++ ":") v) ms

end

/-- A value on one line. -/
def compact (v : Json) : String := compactOnto "" v

end Json
end Chiptune
