import Chiptune.Json.Basic

/-!
# JSON numbers

A numeral is a sign, digits, perhaps a fraction and perhaps an exponent. One without fraction and
exponent is an integer.

Numerals that are too large stand for nothing. How large a numeral is gets estimated in three
rounded steps: its leading digits, as far as they fit a word of 64 bits, are rounded to a double,
so is the power of ten that they are to be multiplied with, and then the product.

## Main definitions

* `Json.Numeral` — the numerals.
* `Json.Numeral.parse?` — reads a numeral.
* `Json.Numeral.isOutOfRange` — whether a numeral is too large.
* `Json.Numeral.value` — the value that a numeral stands for.
-/

namespace Chiptune
namespace Json

/-- A sign, digits, perhaps a fraction and perhaps an exponent. -/
structure Numeral where
  /-- Whether there is a minus sign. -/
  negative : Bool
  /-- The digits before the point. -/
  whole : List UInt8
  /-- The digits after it, if there is a point. -/
  fraction : Option (List UInt8)
  /-- Whether the exponent is negative, and its digits, if there is one. -/
  exponent : Option (Bool × List UInt8)

namespace Numeral

/-- Whether a byte is a decimal digit. -/
def isDigit (b : UInt8) : Bool := 0x30 ≤ b && b ≤ 0x39

/-- The number that some digits are. -/
def digitsValue (ds : List UInt8) : Nat := ds.foldl (fun n d => 10 * n + (d.toNat - 0x30)) 0

/-! ### Reading -/

/-- The sign of a numeral, and what follows it. -/
def sign (bytes : List UInt8) : Bool × List UInt8 :=
  match bytes with
  | 0x2D :: rest => (true, rest)
  | rest => (false, rest)

/-- The sign of an exponent, which may also be a plus, and what follows it. -/
def exponentSign (bytes : List UInt8) : Bool × List UInt8 :=
  match bytes with
  | 0x2B :: rest => (false, rest)
  | rest => sign rest

/-- At least one digit, and what follows the digits. -/
def digits? (bytes : List UInt8) : Option (List UInt8 × List UInt8) :=
  let ds := bytes.takeWhile isDigit
  if ds.isEmpty then none else some (ds, bytes.dropWhile isDigit)

/-- The fraction of a numeral, if there is one, and what follows it. -/
def fraction? (bytes : List UInt8) : Option (Option (List UInt8) × List UInt8) :=
  match bytes with
  | 0x2E :: rest => (digits? rest).map fun (ds, rest) => (some ds, rest)
  | rest => some (none, rest)

/-- The exponent of a numeral, if there is one, and what follows it. -/
def exponent? (bytes : List UInt8) : Option (Option (Bool × List UInt8) × List UInt8) :=
  match bytes with
  | 0x45 :: rest | 0x65 :: rest =>
    (digits? (exponentSign rest).2).map fun (ds, tail) => (some ((exponentSign rest).1, ds), tail)
  | rest => some (none, rest)

/-- The numeral at the front of some bytes, and what follows it. Only a single zero may start with
a zero. -/
def parse? (bytes : List UInt8) : Option (Numeral × List UInt8) :=
  match digits? (sign bytes).2 with
  | none => none
  | some (whole, rest) =>
    if whole.head? = some 0x30 ∧ whole.length ≠ 1 then none
    else
      match fraction? rest with
      | none => none
      | some (fraction, rest) =>
        match exponent? rest with
        | none => none
        | some (exponent, rest) => some (⟨(sign bytes).1, whole, fraction, exponent⟩, rest)

theorem digits?_lt {bytes ds rest : List UInt8} (h : digits? bytes = some (ds, rest)) :
    rest.length < bytes.length := by
  simp only [digits?, List.isEmpty_iff] at h
  split at h
  · cases h
  · next hne =>
    simp only [Option.some.injEq, Prod.mk.injEq] at h
    have hlen := congrArg List.length (List.takeWhile_append_dropWhile (p := isDigit) (l := bytes))
    have := List.length_pos_iff.2 hne
    rw [List.length_append, h.2] at hlen
    omega

theorem sign_le (bytes : List UInt8) : (sign bytes).2.length ≤ bytes.length := by
  unfold sign; split <;> simp

theorem exponentSign_le (bytes : List UInt8) : (exponentSign bytes).2.length ≤ bytes.length := by
  unfold exponentSign; split
  · simp
  · exact sign_le _

theorem fraction?_le {bytes rest : List UInt8} {f : Option (List UInt8)}
    (h : fraction? bytes = some (f, rest)) : rest.length ≤ bytes.length := by
  unfold fraction? at h
  split at h
  · simp only [Option.map_eq_some_iff, Prod.mk.injEq, Prod.exists] at h
    obtain ⟨ds, r, hd, -, rfl⟩ := h
    have := digits?_lt hd
    simp only [List.length_cons]
    omega
  · simp_all

theorem exponent?_le {bytes rest : List UInt8} {e : Option (Bool × List UInt8)}
    (h : exponent? bytes = some (e, rest)) : rest.length ≤ bytes.length := by
  unfold exponent? at h
  split at h
  case h_3 => simp_all
  all_goals
    next tail =>
    simp only [Option.map_eq_some_iff, Prod.mk.injEq, Prod.exists] at h
    obtain ⟨ds, r, hd, -, rfl⟩ := h
    have := digits?_lt hd
    have := exponentSign_le tail
    simp only [List.length_cons]
    omega

theorem parse?_lt {bytes rest : List UInt8} {n : Numeral}
    (h : parse? bytes = some (n, rest)) : rest.length < bytes.length := by
  unfold parse? at h
  repeat' split at h
  all_goals simp only [Option.some.injEq, Prod.mk.injEq, reduceCtorEq] at h
  next hd _ _ _ _ hf _ _ _ he =>
  have := sign_le bytes
  have := digits?_lt hd
  have := fraction?_le hf
  have := exponent?_le he
  rw [← h.2]
  omega

/-! ### Range -/

/-- Appends digits to a number for as long as it fits 64 bits: the number that comes out, and the
digits that are left. -/
def fill (n : Nat) : List UInt8 → Nat × List UInt8
  | [] => (n, [])
  | d :: ds =>
    let more := 10 * n + (d.toNat - 0x30)
    if more < 2 ^ 64 then fill more ds else (n, d :: ds)

/-- The leading digits as a number, and the power of ten that it is to be multiplied with. Digits
before the point that do not fit still count for the power. -/
def scientific (n : Numeral) : Nat × Int :=
  let fraction := n.fraction.getD []
  let (whole, unread) := fill 0 n.whole
  let (significand, skipped) := fill whole fraction
  let shift : Int := match n.exponent with
    | none => 0
    | some (true, ds) => -digitsValue ds
    | some (false, ds) => digitsValue ds
  (significand, shift + unread.length - (fraction.length - skipped.length : Int))

/-- How many leading bits a double keeps. -/
def precision : Nat := 53

/-- The double that is nearest to a number, of two the one that ends with a zero bit. -/
def nearestDouble (n : Nat) : Nat :=
  let unit := Nat.pow 2 (n.log2 + 1 - precision)
  let below := n / unit
  let rest := 2 * (n % unit)
  if unit < rest ∨ (rest = unit ∧ below % 2 = 1) then (below + 1) * unit else below * unit

/-- From here on a number is nearer to the next power of two than to the largest double. -/
def doubleBound : Nat := Nat.pow 2 1024 - Nat.pow 2 970

/-- The largest power of ten that is a double. -/
def maxExponent : Nat := 308

/-- Whether a numeral is too large. -/
def isOutOfRange (n : Numeral) : Bool :=
  let (significand, exponent) := n.scientific
  if significand = 0 ∨ exponent < 0 then false
  else if maxExponent < exponent then true
  else doubleBound ≤ nearestDouble significand * nearestDouble (Nat.pow 10 exponent.toNat)

/-- The value of a numeral. A zero with a minus sign is no integer. -/
def value (n : Numeral) : Json :=
  let whole := digitsValue n.whole
  if n.isOutOfRange then garbled
  else if n.fraction.isSome || n.exponent.isSome || (n.negative && whole == 0) then decimal
  else int (if n.negative then -whole else whole)

end Numeral
end Json
end Chiptune
