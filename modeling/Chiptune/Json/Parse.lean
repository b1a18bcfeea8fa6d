import Chiptune.Json.Token

/-!
# Reading JSON

A text is read token by token, with a stack of the arrays and objects that are still open.

## Main definitions

* `Json.Frame`, `Json.Goal` — an open array or object, and what may come next.
* `Json.ofTokens?` — the value that some tokens are.
* `Json.parse?` — the value that a text is.
-/

namespace Chiptune
namespace Json

/-- An array or object that is still open, its parts so far in reverse. A key may stand for no
text. -/
inductive Frame where
  /-- An array. -/
  | array (items : List Json)
  /-- An object. -/
  | object (members : List (Option String × Json))
  /-- An object that waits for the value of a key. -/
  | member (members : List (Option String × Json)) (key : Option String)

/-- What may come next. -/
inductive Goal where
  /-- A value. -/
  | value
  /-- A value, or the end of an array that has just begun. -/
  | firstItem
  /-- The key of a member. -/
  | key
  /-- The key of a member, or the end of an object that has just begun. -/
  | firstKey
  /-- The colon after a key. -/
  | colon
  /-- What may follow a value that is complete. -/
  | after (value : Json)

/-- An object of members in reverse. Where a key stands for nothing, so does the object. -/
def closeObject (members : List (Option String × Json)) : Json :=
  match members.reverse.mapM fun m => m.1.map (·, m.2) with
  | some members => object members
  | none => garbled

/-- The string that a token stands for. -/
def ofText : Option String → Json
  | some s => string s
  | none => garbled

/-- What a token does where a value may begin. -/
def beginValue (stack : List Frame) : Token → Option (List Frame × Goal)
  | .openArray => some (.array [] :: stack, .firstItem)
  | .openObject => some (.object [] :: stack, .firstKey)
  | .string text => some (stack, .after (ofText text))
  | .literal v => some (stack, .after v)
  | _ => none

/-- What a token does. -/
def step? (stack : List Frame) (goal : Goal) (t : Token) : Option (List Frame × Goal) :=
  match goal, t, stack with
  | .firstItem, .closeArray, .array _ :: stack => some (stack, .after (array []))
  | .value, t, stack | .firstItem, t, stack => beginValue stack t
  | .firstKey, .closeObject, .object _ :: stack => some (stack, .after (object []))
  | .key, .string text, .object members :: stack
  | .firstKey, .string text, .object members :: stack =>
    some (.member members text :: stack, .colon)
  | .colon, .colon, stack => some (stack, .value)
  | .after v, .comma, .array items :: stack => some (.array (v :: items) :: stack, .value)
  | .after v, .closeArray, .array items :: stack =>
    some (stack, .after (array (v :: items).reverse))
  | .after v, .comma, .member members key :: stack =>
    some (.object ((key, v) :: members) :: stack, .key)
  | .after v, .closeObject, .member members key :: stack =>
    some (stack, .after (closeObject ((key, v) :: members)))
  | _, _, _ => none

/-- Reads on from a state. -/
def resume? (stack : List Frame) (goal : Goal) : List Token → Option Json
  | [] =>
    match stack, goal with
    | [], .after v => some v
    | _, _ => none
  | t :: ts =>
    match step? stack goal t with
    | some (stack, goal) => resume? stack goal ts
    | none => none

/-- The value that some tokens are. -/
def ofTokens? (ts : List Token) : Option Json := resume? [] .value ts

/-- The value that a text is. -/
def parse? (bytes : List UInt8) : Option Json := (Token.scan? bytes).bind ofTokens?

end Json
end Chiptune
