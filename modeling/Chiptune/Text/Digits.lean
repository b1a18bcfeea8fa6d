/-!
# Digits

Numbers in hexadecimal, and texts that are filled up to a width.

## Main definitions

* `Text.hexLower` — a number in base sixteen.
* `Text.hexByte` — a byte as two hexadecimal digits.
* `Text.padRight` — a text filled up with blanks.
-/

namespace Chiptune
namespace Text

/-- A number in base sixteen, with small letters and no leading zeros. -/
def hexLower (n : Nat) : String := String.ofList (Nat.toDigits 16 n)

/-- One hexadecimal digit, with capital letters. -/
def hexDigit (n : Nat) : Char :=
  if n < 10 then Char.ofNat (48 + n) else Char.ofNat (55 + n)

/-- A byte as two hexadecimal digits. -/
def hexByte (b : UInt8) : String :=
  String.ofList [hexDigit (b.toNat / 16), hexDigit (b.toNat % 16)]

/-- A text filled up with blanks on the right. -/
def padRight (width : Nat) (s : String) : String :=
  s ++ String.ofList (List.replicate (width - s.length) ' ')

end Text
end Chiptune
