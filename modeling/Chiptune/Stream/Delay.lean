/-!
# Delay operands

A delay is written in two bytes, high byte first, or in three. The top bit of the first
byte marks the long form, which has seven bits in each of its first two bytes.

## Main definitions

* `Delay.encode` — the operand for a delay.
* `Delay.decode?` — the delay at the front of some bytes, and what follows it.
-/

namespace Chiptune
namespace Delay

/-- The operand for a delay of `n` units. The short form serves for up to 127 frames. -/
def encode (n scale : Int) : List UInt8 :=
  if n ≤ 127 * scale then
    [.ofInt (n.tdiv 0x100), .ofInt n]
  else
    [.ofInt (n.tdiv 0x8000) ||| 0x80, .ofInt (n.tdiv 0x100) &&& 0x7F, .ofInt n]

/-- The delay at the front of some bytes, and the bytes after it. -/
def decode? : List UInt8 → Option (Int × List UInt8)
  | first :: second :: rest =>
    if first &&& 0x80 = 0 then
      some (first.toNat * 0x100 + second.toNat, rest)
    else
      match rest with
      | third :: rest =>
        some ((first &&& 0x7F).toNat * 0x8000 + (second &&& 0x7F).toNat * 0x100 + third.toNat, rest)
      | [] => none
  | _ => none

/-- An operand takes at least two bytes. -/
theorem length_of_decode? {bytes rest : List UInt8} {n : Int} (h : decode? bytes = some (n, rest)) :
    rest.length + 2 ≤ bytes.length := by
  unfold decode? at h
  split at h
  · split at h
    · simp only [Option.some.injEq, Prod.mk.injEq] at h
      simp [← h.2]
    · split at h
      · simp only [Option.some.injEq, Prod.mk.injEq] at h
        simp [← h.2]
      · simp at h
  · simp at h

end Delay
end Chiptune
