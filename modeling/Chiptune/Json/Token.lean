import Chiptune.Json.Numeral

/-!
# JSON tokens

The bytes of a JSON text as brackets, marks, strings and other values without parts.

## Main definitions

* `Json.Token` — the tokens.
* `Json.Token.scan?` — the tokens of a text.
-/

namespace Chiptune
namespace Json

/-- A token of a JSON text. -/
inductive Token where
  | openArray
  | closeArray
  | openObject
  | closeObject
  | comma
  | colon
  /-- A string, which may stand for no text. -/
  | string (text : Option String)
  /-- A number or a word. -/
  | literal (value : Json)

namespace Token

/-- Whether a byte is a blank between tokens. -/
def isBlank (b : UInt8) : Bool := b = 0x20 || b = 0x09 || b = 0x0A || b = 0x0D

/-- The value of a hexadecimal digit. -/
def hexValue? (b : UInt8) : Option Nat :=
  if Numeral.isDigit b then some (b.toNat - 0x30)
  else if 0x41 ≤ b && b ≤ 0x46 then some (b.toNat - 0x41 + 10)
  else if 0x61 ≤ b && b ≤ 0x66 then some (b.toNat - 0x61 + 10)
  else none

/-! ### Strings -/

/-- A piece of a string as it is written. -/
inductive Piece where
  /-- A byte that stands for itself. -/
  | byte (b : UInt8)
  /-- A UTF-16 unit, written with four digits. -/
  | unit (u : Nat)

/-- The byte that an escape of one letter stands for. -/
def escape? (b : UInt8) : Option UInt8 :=
  if b = 0x22 || b = 0x5C || b = 0x2F then some b
  else if b = 0x62 then some 0x08
  else if b = 0x66 then some 0x0C
  else if b = 0x6E then some 0x0A
  else if b = 0x72 then some 0x0D
  else if b = 0x74 then some 0x09
  else none

/-- The number that four hexadecimal digits are. -/
def hex4? (a b c d : UInt8) : Option Nat := do
  return (((← hexValue? a) * 16 + (← hexValue? b)) * 16 + (← hexValue? c)) * 16 + (← hexValue? d)

/-- The pieces of a string after its opening quote, and the bytes after its closing quote. -/
def pieces? (done : Array Piece) : List UInt8 → Option (Array Piece × List UInt8)
  | [] => none
  | 0x22 :: rest => some (done, rest)
  | 0x5C :: 0x75 :: a :: b :: c :: d :: rest =>
    match hex4? a b c d with
    | some u => pieces? (done.push (.unit u)) rest
    | none => none
  | 0x5C :: e :: rest =>
    match escape? e with
    | some b => pieces? (done.push (.byte b)) rest
    | none => none
  | b :: rest => if b < 0x20 || b = 0x5C then none else pieces? (done.push (.byte b)) rest

/-- The UTF-8 bytes of a code point. -/
def codePoint (n : Nat) : List UInt8 := String.utf8EncodeChar (Char.ofNat n)

/-- The bytes of a string, unless a surrogate in it has no partner. -/
def textBytes? (done : ByteArray) : List Piece → Option ByteArray
  | [] => some done
  | .byte b :: ps => textBytes? (done.push b) ps
  | .unit u :: .unit v :: ps =>
    if 0xD800 ≤ u && u < 0xDC00 then
      if 0xDC00 ≤ v && v < 0xE000 then
        textBytes? ((codePoint (0x10000 + (u - 0xD800) * 0x400 + (v - 0xDC00))).foldl .push done) ps
      else none
    else if 0xDC00 ≤ u && u < 0xE000 then none
    else textBytes? ((codePoint u).foldl .push done) (.unit v :: ps)
  | .unit u :: ps =>
    if 0xD800 ≤ u && u < 0xE000 then none else textBytes? ((codePoint u).foldl .push done) ps

/-- The text of a string. -/
def text? (ps : Array Piece) : Option String := do
  String.fromUTF8? (← textBytes? .empty ps.toList)

theorem pieces?_le {done ps : Array Piece} {bytes rest : List UInt8}
    (h : pieces? done bytes = some (ps, rest)) : rest.length ≤ bytes.length := by
  fun_induction pieces? done bytes
  all_goals simp_all only [Option.some.injEq, Prod.mk.injEq, List.length_cons, reduceCtorEq,
    true_implies]
  all_goals omega

/-! ### Tokens -/

/-- The token that a byte is. -/
def mark? (b : UInt8) : Option Token :=
  if b = 0x5B then some openArray
  else if b = 0x5D then some closeArray
  else if b = 0x7B then some openObject
  else if b = 0x7D then some closeObject
  else if b = 0x2C then some comma
  else if b = 0x3A then some colon
  else none

/-- The word that starts with a byte: the bytes after that one, and the value. -/
def word? (b : UInt8) : Option (List UInt8 × Json) :=
  if b = 0x6E then some ([0x75, 0x6C, 0x6C], null)
  else if b = 0x74 then some ([0x72, 0x75, 0x65], bool true)
  else if b = 0x66 then some ([0x61, 0x6C, 0x73, 0x65], bool false)
  else none

/-- A value without parts that starts with the byte `b`, and what follows it. -/
def scalar? (b : UInt8) (bytes : List UInt8) : Option (Token × List UInt8) :=
  match word? b with
  | some (w, value) =>
    if w.isPrefixOf bytes then some (literal value, bytes.drop w.length) else none
  | none =>
    if b = 0x22 then (pieces? #[] bytes).map fun (ps, rest) => (string (text? ps), rest)
    else (Numeral.parse? (b :: bytes)).map fun (n, rest) => (literal n.value, rest)

/-- The token that starts with the byte `b`, and what follows it. -/
def next? (b : UInt8) (bytes : List UInt8) : Option (Token × List UInt8) :=
  match mark? b with
  | some t => some (t, bytes)
  | none => scalar? b bytes

theorem scalar?_le {b : UInt8} {bytes rest : List UInt8} {t : Token}
    (h : scalar? b bytes = some (t, rest)) : rest.length ≤ bytes.length := by
  unfold scalar? at h
  split at h
  · split at h
    · simp only [Option.some.injEq, Prod.mk.injEq] at h
      simp [← h.2]
    · cases h
  · split at h
    · simp only [Option.map_eq_some_iff, Prod.mk.injEq, Prod.exists] at h
      obtain ⟨ps, r, hp, -, rfl⟩ := h
      exact pieces?_le hp
    · simp only [Option.map_eq_some_iff, Prod.mk.injEq, Prod.exists] at h
      obtain ⟨n, r, hn, -, rfl⟩ := h
      exact Nat.le_of_lt_succ (Numeral.parse?_lt hn)

theorem next?_le {b : UInt8} {bytes rest : List UInt8} {t : Token}
    (h : next? b bytes = some (t, rest)) : rest.length ≤ bytes.length := by
  unfold next? at h
  split at h
  · cases h
    exact Nat.le_refl _
  · exact scalar?_le h

/-- The tokens of some bytes, after the tokens `done`. -/
def scanOnto? (done : Array Token) : List UInt8 → Option (Array Token)
  | [] => some done
  | b :: bytes =>
    if isBlank b then scanOnto? done bytes
    else
      match _h : next? b bytes with
      | some (t, rest) => scanOnto? (done.push t) rest
      | none => none
termination_by bytes => bytes.length
decreasing_by
  · simp
  · exact Nat.lt_succ_of_le (next?_le (by assumption))

/-- The tokens of a text. -/
def scan? (bytes : List UInt8) : Option (List Token) := (scanOnto? #[] bytes).map (·.toList)

end Token
end Json
end Chiptune
