import Chiptune.Proofs.RoundTrip

/-!
# What an operand carries

The writer of a delay chooses the form of its operand by the length in frames; the reader sees only
the top bit of the first byte.  So the two agree on some delays and not on others.  A short operand
has fifteen bits and a long one has twenty-two, and a delay that does not fit loses bits.  It is
then read as another delay, or the reader takes a byte that does not belong to it.

## Main definitions

* `Delay.extent?` — the delay at the front of some bytes, and how many of them it takes.

## Main results

* `Delay.extent?_eq_some_iff` — a delay is found exactly where a word of it stands.
* `Delay.spells_encode_iff` — the operand of a delay is a word of it exactly if the delay fits.
* `Delay.operand_exact` — the delays that are read back, and the form of their operands.
-/

namespace Chiptune

namespace Delay

variable {n scale : Int} {word bytes : List UInt8}

/-- The delay at the front of some bytes, and how many bytes it takes. -/
def extent? (bytes : List UInt8) : Option (Int × Nat) :=
  (decode? bytes).map fun x => (x.1, bytes.length - x.2.length)

/-- **A delay is found exactly where a word of it stands**, and takes as many bytes as the word. -/
theorem extent?_eq_some_iff {used : Nat} :
    extent? bytes = some (n, used) ↔
      ∃ word rest, Spells word n ∧ bytes = word ++ rest ∧ word.length = used := by
  unfold extent?
  constructor
  · intro h
    obtain ⟨⟨m, rest⟩, hdecode, heq⟩ := Option.map_eq_some_iff.mp h
    cases heq
    obtain ⟨word, hword, rfl⟩ := spells_of_decode? hdecode
    exact ⟨word, rest, hword, rfl, by simp⟩
  · rintro ⟨word, rest, hword, rfl, rfl⟩
    rw [decode?_of_spells hword]
    simp

/-- A word has fifteen bits or twenty-two. -/
theorem Spells.bounds (h : Spells word n) :
    0 ≤ n ∧ n ≤ 0x3FFFFF ∧ (word.length = 2 → n < 0x8000) := by
  cases h with
  | @short first second hfirst =>
    have hsecond := second.toNat_lt
    simp only [List.length_cons, List.length_nil]
    omega
  | @long first second third hfirst =>
    have hthird := third.toNat_lt
    have hhigh : first.toNat % 128 < 128 := Nat.mod_lt _ (by decide)
    have hmid : second.toNat % 128 < 128 := Nat.mod_lt _ (by decide)
    simp only [List.length_cons, List.length_nil]
    omega

/-- The form of an operand is chosen by the length in frames alone. -/
theorem length_encode (n scale : Int) :
    (encode n scale).length = if n ≤ 127 * scale then 2 else 3 := by
  unfold encode
  split <;> rfl

/-- **The operand of a delay is a word of it exactly if the delay fits.** -/
theorem spells_encode_iff : Spells (encode n scale) n ↔ Fits n scale := by
  refine ⟨fun h => ?_, spells_encode⟩
  obtain ⟨h0, hmax, hshort⟩ := h.bounds
  rw [length_encode] at hshort
  refine ⟨h0, hmax, ?_⟩
  by_cases hform : n ≤ 127 * scale
  · exact .inr (hshort (if_pos hform))
  · exact .inl (by omega)

/-- Whatever follows the operand, its delay is found in it exactly if the delay fits. -/
theorem extent?_encode_iff (tail : List UInt8) :
    extent? (encode n scale ++ tail) = some (n, (encode n scale).length) ↔ Fits n scale := by
  rw [extent?_eq_some_iff, ← spells_encode_iff]
  constructor
  · rintro ⟨word, rest, hword, happend, hlength⟩
    -- a word of the same length at the same place is the operand itself
    rw [(List.append_inj happend hlength.symm).1]
    exact hword
  · intro h
    exact ⟨_, tail, h, rfl, rfl⟩

/-- **The delays that an operand carries.**  A delay is read back from its operand, with the bytes
that were written and no others, exactly if it is not negative, has at most twenty-two bits, and is
long enough for the long form or has at most fifteen bits.  For both precisions of a driver every
delay up to the longest one is among these.  Which of the two forms an operand has is decided by the
length in frames alone. -/
theorem operand_exact (n scale : Int) (tail : List UInt8) :
    (extent? (encode n scale ++ tail) = some (n, (encode n scale).length) ↔
      0 ≤ n ∧ n ≤ 0x3FFFFF ∧ (127 * scale < n ∨ n < 0x8000)) ∧
    (scale = 1 ∨ scale = 256 → 0 ≤ n → n ≤ maxLength scale →
      decode? (encode n scale ++ tail) = some (n, tail) ∧
        extent? (encode n scale ++ tail) = some (n, (encode n scale).length)) ∧
    (encode n scale).length = if n ≤ 127 * scale then 2 else 3 := by
  refine ⟨extent?_encode_iff tail, fun hscale h0 hmax => ?_, length_encode n scale⟩
  obtain ⟨clock, rfl⟩ : ∃ clock : FrameClock, clock.scale = scale := by
    rcases hscale with rfl | rfl
    · exact ⟨⟨60, false⟩, rfl⟩
    · exact ⟨⟨60, true⟩, rfl⟩
  have hfits : Fits n clock.scale := fits_of_le_maxLength h0 hmax
  exact ⟨decode?_encode hfits tail, (extent?_encode_iff tail).mpr hfits⟩

/-- The longest delay is read back.  With frames of three hundred units the short form is too short
for `0x8101`: a byte of what follows is taken for its own, even where the delay comes out right. -/
theorem operand_exact_taken :
    decode? (encode 0x3FFFFF 256 ++ [0x80]) = some (0x3FFFFF, [0x80]) ∧
      extent? (encode 0x8101 300 ++ [0x01]) = some (0x8101, 3) ∧
      extent? (encode 0x8101 300 ++ [0x01]) ≠ some (0x8101, (encode 0x8101 300).length) := by
  refine ⟨?_, by decide, ?_⟩
  · exact ((operand_exact 0x3FFFFF 256 [0x80]).2.1 (.inr rfl) (by decide) (by decide)).1
  · rw [ne_eq, (operand_exact 0x8101 300 [0x01]).1]
    decide

end Delay

end Chiptune
