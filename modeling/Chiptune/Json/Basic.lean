/-!
# JSON values

Scripts, options and structured output are JSON. Numbers with a fraction or an exponent have
no use here, so nothing is kept of them. Some values are well written but stand for nothing:
a string with half a surrogate pair, bytes that are not UTF-8, a number beyond all bounds.
Such a value may be skipped, but not read.

## Main definitions

* `Json` — the values.
* `Json.Reading` — whether a value is read when it comes, or has been kept.
* `Json.keepable` — whether a value can be read as a whole.
* `Json.record?` — the known fields of a record.
* `Json.nat32?`, `Json.int32?`, `Json.int64?` — integers of a given width.
-/

namespace Chiptune

/-- A JSON value. -/
inductive Json where
  | null
  | bool (value : Bool)
  /-- A number without fraction and exponent. -/
  | int (value : Int)
  /-- Any other number. -/
  | decimal
  | string (value : String)
  | array (items : List Json)
  /-- An object, with its members in the order in which they are written. -/
  | object (members : List (String × Json))
  /-- A value that stands for nothing. -/
  | garbled
  deriving Repr, Inhabited

namespace Json

/-- How a value is read. -/
inductive Reading where
  /-- When it comes. -/
  | direct
  /-- Later, having been kept until the kind of what it belongs to is known. -/
  | kept
  deriving DecidableEq, Repr

/-- How many arrays and objects may contain each other where values are kept. -/
def maxDepth : Nat := 127

/-- Whether nothing in a value is garbled, and no more than `room` arrays and objects contain each
other in it. -/
def keepable : (room : Nat) → Json → Bool
  | _, garbled => false
  | 0, array _ | 0, object _ => false
  | room + 1, array items => items.all (keepable room)
  | room + 1, object members => members.all fun m => keepable room m.2
  | _, null | _, bool _ | _, int _ | _, decimal | _, string _ => true

/-- Whether a key occurs twice among those that are known. -/
def repeatsKey (known : List String) (members : List (String × Json)) : Bool :=
  known.any fun k => 1 < members.countP (·.1 == k)

/-- The known fields of a record that are given. Unknown fields are skipped, and none of the known
ones may be given twice. A record can also be an array with its first fields in order. -/
def record? (known : List String) : Json → Option (List (String × Json))
  | object members =>
    if repeatsKey known members then none else some (members.filter (known.contains ·.1))
  | array items => if items.length ≤ known.length then some (known.zip items) else none
  | _ => none

/-- A name out of a list of names. It is a string, or an object with the name as its only key and
nothing under it. Nothing is null, and in a kept value also an empty object. -/
def name? : Reading → Json → Option String
  | _, string s => some s
  | _, object [(s, null)] => some s
  | .kept, object [(s, object [])] => some s
  | _, _ => none

/-- A truth value. -/
def bool? : Json → Option Bool
  | bool b => some b
  | _ => none

/-- An integer in a given range. -/
def intIn? (lowest highest : Int) : Json → Option Int
  | int n => if lowest ≤ n ∧ n ≤ highest then some n else none
  | _ => none

/-- A natural number of 32 bits. -/
def nat32? (j : Json) : Option Nat := (j.intIn? 0 0xFFFFFFFF).map Int.toNat

/-- An integer of 32 bits. -/
def int32? (j : Json) : Option Int := j.intIn? (-0x80000000) 0x7FFFFFFF

/-- An integer of 64 bits. -/
def int64? (j : Json) : Option Int := j.intIn? (-0x8000000000000000) 0x7FFFFFFFFFFFFFFF

/-- The elements of an array. -/
def list? {α : Type} (f : Json → Option α) : Json → Option (List α)
  | array items => items.mapM f
  | _ => none

/-- The members of an object that serves as a map. -/
def members? {α : Type} (f : Json → Option α) : Json → Option (List (String × α))
  | object members => members.mapM fun m => (f m.2).map (m.1, ·)
  | _ => none

/-- A value that may be null. -/
def nullable? {α : Type} (f : Json → Option α) : Json → Option (Option α)
  | null => some none
  | j => (f j).map some

/-- A field that may be missing, for which there is a default value. -/
def field? {α : Type} (fields : List (String × Json)) (key : String) (f : Json → Option α)
    (missing : α) : Option α :=
  match fields.lookup key with
  | some j => f j
  | none => some missing

/-- A field that may not be missing. -/
def required? {α : Type} (fields : List (String × Json)) (key : String) (f : Json → Option α) :
    Option α :=
  (fields.lookup key).bind f

end Json

end Chiptune
