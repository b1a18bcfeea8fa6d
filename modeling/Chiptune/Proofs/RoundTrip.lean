import Chiptune.Proofs.Grammar
import Chiptune.Timing

/-!
# Reading back what was written

The bytes of a command tell where they end: the opcode tells which operands follow, and the
first byte of a delay tells whether it has two bytes or three.  So a reader finds the commands
of a stream again, whatever bytes come after them.

This holds of the commands that a stream can carry.  A pitch needs a place below the rest, an
octave four bits, and a delay has to be no longer than the longest one.

## Main definitions

* `Delay.Fits` — the delays that an operand can carry.
* `Command.Fits` — the commands that a stream can carry.
* `Command.marks` — the commands of a stream, each with the position after it.

## Main results

* `Delay.decode?_encode` — a delay that fits is read back from its operand.
* `Command.decode_encode` — a command that fits is read back from its bytes.
* `Reader.steps_encodeAll`, `Reader.readAll_encodeAll` — what a reader finds in the bytes of a
  list of commands.
-/

namespace Chiptune

/-! ### Delays -/

namespace Delay

/-- The delays that an operand can carry.  In the short form the first byte keeps its top bit
free; in the long form there are twenty-two bits. -/
def Fits (n scale : Int) : Prop := 0 ≤ n ∧ n ≤ 0x3FFFFF ∧ (127 * scale < n ∨ n < 0x8000)

instance (n scale : Int) : Decidable (Fits n scale) := by unfold Fits; infer_instance

/-- Every delay up to the longest one fits, for both precisions of a driver. -/
theorem fits_of_le_maxLength {clock : FrameClock} {n : Int} (h0 : 0 ≤ n)
    (hn : n ≤ maxLength clock.scale) : Fits n clock.scale := by
  unfold maxLength at hn
  unfold Fits
  cases hf : clock.fractional <;> simp only [FrameClock.scale, hf] at hn ⊢ <;>
    simp at hn ⊢ <;> omega

private theorem toNat_ofInt {n : Int} (h : 0 ≤ n) : (UInt8.ofInt n).toNat = n.toNat % 256 := by
  obtain ⟨k, rfl⟩ := Int.eq_ofNat_of_zero_le h
  simp [UInt8.ofInt]
  omega

private theorem toNat_or_top {b : UInt8} (h : b.toNat < 128) :
    (b ||| 0x80).toNat = b.toNat + 128 := by
  have key : ∀ n < 128, n ||| 128 = n + 128 := by decide
  rw [UInt8.toNat_or]
  exact key b.toNat h

/-- The operand of a delay that fits is a word of it. -/
theorem spells_encode {n scale : Int} (h : Fits n scale) : Spells (encode n scale) n := by
  obtain ⟨h0, hmax, hform⟩ := h
  obtain ⟨k, rfl⟩ := Int.eq_ofNat_of_zero_le h0
  have hlow : (UInt8.ofInt (k : Int)).toNat = k % 256 := toNat_ofInt h0
  have hmid : (UInt8.ofInt ((k : Int).tdiv 0x100)).toNat = k / 256 % 256 := by
    rw [toNat_ofInt (Int.tdiv_nonneg h0 (by decide))]; rfl
  have hhigh : (UInt8.ofInt ((k : Int).tdiv 0x8000)).toNat = k / 0x8000 % 256 := by
    rw [toNat_ofInt (Int.tdiv_nonneg h0 (by decide))]; rfl
  unfold encode
  split
  · -- the short form: the delay is below `0x8000`, so the first byte has no top bit
    have hword := @Spells.short (.ofInt ((k : Int).tdiv 0x100)) (.ofInt k) (by rw [hmid]; omega)
    rw [hmid, hlow] at hword
    convert hword using 1
    omega
  · -- the long form: seven bits in each of the first two bytes
    have hfirst : (UInt8.ofInt ((k : Int).tdiv 0x8000) ||| 0x80).toNat = k / 0x8000 + 128 := by
      rw [toNat_or_top (by rw [hhigh]; omega), hhigh]; omega
    have hword := @Spells.long (.ofInt ((k : Int).tdiv 0x8000) ||| 0x80)
      (.ofInt ((k : Int).tdiv 0x100) &&& 0x7F) (.ofInt k) (by rw [hfirst]; omega)
    rw [hfirst, toNat_and_low, hmid, hlow] at hword
    convert hword using 1
    omega

/-- **A delay that fits is read back from its operand**, whatever follows. -/
theorem decode?_encode {n scale : Int} (h : Fits n scale) (rest : List UInt8) :
    decode? (encode n scale ++ rest) = some (n, rest) :=
  decode?_of_spells (spells_encode h) rest

end Delay

/-! ### Commands -/

namespace Command

/-- The commands that a stream can carry, with delays up to `longest`. -/
def Fits (longest : Int) : Command → Prop
  | note pitch length => pitch < 12 ∧ 0 ≤ length ∧ length ≤ longest
  | noteShort pitch | noteUp pitch | noteDown pitch => pitch < 12
  | rest length | wait length => 0 ≤ length ∧ length ≤ longest
  | octave o => o < 16
  | restShort | waitShort | volume _ | effectOn _ _ | effectOff _ | jump _ | stop => True

/-- The delay that a command carries, if it has one. -/
def delay? : Command → Option Int
  | note _ length | rest length | wait length => some length
  | _ => none

/-- The delay of a command that fits is within bounds. -/
theorem Fits.delay {longest n : Int} {c : Command} (h : c.Fits longest) (hn : c.delay? = some n) :
    0 ≤ n ∧ n ≤ longest := by
  cases c <;> simp only [delay?, Option.some.injEq, reduceCtorEq] at hn <;> subst hn
  · exact h.2
  · exact h
  · exact h

private theorem ofNat_bytes (offset : UInt16) :
    UInt16.ofNat (offset.toUInt8.toNat + 0x100 * (offset >>> 8).toUInt8.toNat) = offset := by
  have h := offset.toNat_lt
  rw [← UInt16.toNat_inj]
  simp [Nat.shiftRight_eq_div_pow]
  omega

@[simp] theorem encodeAll_nil (scale : Int) : encodeAll scale [] = [] := rfl

@[simp] theorem encodeAll_cons (scale : Int) (c : Command) (cs : List Command) :
    encodeAll scale (c :: cs) = c.encode scale ++ encodeAll scale cs := rfl

@[simp] theorem encodeAll_append (scale : Int) (cs cs' : List Command) :
    encodeAll scale (cs ++ cs') = encodeAll scale cs ++ encodeAll scale cs' :=
  List.flatMap_append

/-- The bytes of a command that fits are a word of it. -/
theorem spells_encode {clock : FrameClock} {c : Command} (h : c.Fits (maxLength clock.scale)) :
    Spells (c.encode clock.scale) c := by
  cases c with
  | note pitch length =>
    obtain ⟨hp, h0, hn⟩ := h
    exact .note hp (Delay.spells_encode (Delay.fits_of_le_maxLength h0 hn))
  | noteShort pitch => exact .noteShort h
  | noteUp pitch => exact .noteUp h
  | noteDown pitch => exact .noteDown h
  | rest length => exact .rest (Delay.spells_encode (Delay.fits_of_le_maxLength h.1 h.2))
  | restShort => exact .restShort
  | wait length => exact .wait (Delay.spells_encode (Delay.fits_of_le_maxLength h.1 h.2))
  | waitShort => exact .waitShort
  | octave o => exact .octave h
  | volume v => exact .volume v
  | effectOn effect operand => exact .effectOn effect operand
  | effectOff effect => exact .effectOff effect
  | jump offset =>
    have hword := Spells.jump offset.toUInt8 (offset >>> 8).toUInt8
    rwa [ofNat_bytes] at hword
  | stop => exact .stop

theorem spellsAll_encodeAll {clock : FrameClock} {cs : List Command}
    (h : ∀ c ∈ cs, c.Fits (maxLength clock.scale)) : SpellsAll (encodeAll clock.scale cs) cs := by
  induction cs with
  | nil => exact .nil
  | cons c cs ih =>
    obtain ⟨hc, hcs⟩ := List.forall_mem_cons.mp h
    exact .cons (spells_encode hc) (ih hcs)

/-- **A command that fits is read back from its bytes**, whatever follows them. -/
theorem decode_encode {clock : FrameClock} {c : Command} (h : c.Fits (maxLength clock.scale))
    (tail : List UInt8) : decode (c.encode clock.scale ++ tail) = .ok (c, tail) :=
  decode_of_spells (spells_encode h) tail

/-- The commands of a stream, each with the position after it; `start` is the position before the
first. -/
def marks (scale : Int) (start : Nat) : List Command → List (Command × Nat)
  | [] => []
  | c :: cs =>
    (c, start + (c.encode scale).length) :: marks scale (start + (c.encode scale).length) cs

end Command

/-! ### Readers -/

namespace Reader

open Command

variable {clock : FrameClock}

/-- A reader before a command that fits reads it and stands after it. -/
theorem next_encode {c : Command} (h : c.Fits (maxLength clock.scale)) (size : Nat)
    (tail : List UInt8) : next ⟨size, c.encode clock.scale ++ tail⟩ = .ok c ⟨size, tail⟩ := by
  simp only [next, decode_encode h]

/-- **Stepping through the bytes of some commands** gives the commands with their positions, and
fails at the end of the bytes and not before. -/
theorem steps_encodeAll : ∀ (cs : List Command) (start : Nat),
    (∀ c ∈ cs, c.Fits (maxLength clock.scale)) →
    steps ⟨start + (encodeAll clock.scale cs).length, encodeAll clock.scale cs⟩ =
      (marks clock.scale start cs,
        .stream (start + (encodeAll clock.scale cs).length) .endOfData,
        start + (encodeAll clock.scale cs).length) := by
  intro cs
  induction cs with
  | nil =>
    intro start _
    rw [steps]
    simp [next, decode, skip, position, marks]
  | cons c cs ih =>
    intro start h
    -- the size stays what it is, so after a command the position is further on by its bytes
    have hsize : start + (encodeAll clock.scale (c :: cs)).length =
        start + (c.encode clock.scale).length + (encodeAll clock.scale cs).length := by
      simp [Nat.add_assoc]
    have hnext := next_encode (h c (by simp))
      (start + (c.encode clock.scale).length + (encodeAll clock.scale cs).length)
      (encodeAll clock.scale cs)
    rw [hsize, encodeAll_cons, steps]
    split
    · next e r he => rw [hnext] at he; cases he
    · next c' r he =>
      rw [hnext] at he
      cases he
      rw [ih _ fun c hc => h c (by simp [hc])]
      simp [marks, position]

/-- **Reading a finished stream** gives its commands, the last of which ends the channel, and
leaves the reader right after them. -/
theorem readAll_encodeAll {cs : List Command} {last : Command} (size : Nat) (tail : List UInt8)
    (h : ∀ c ∈ cs, c.Fits (maxLength clock.scale) ∧ c.isTerminator = false)
    (hfits : last.Fits (maxLength clock.scale)) (hterm : last.isTerminator = true) :
    readAll ⟨size, encodeAll clock.scale (cs ++ [last]) ++ tail⟩ =
      .ok (cs ++ [last]) ⟨size, tail⟩ := by
  have hall : ∀ c ∈ cs ++ [last], c.Fits (maxLength clock.scale) :=
    List.forall_mem_append.mpr ⟨fun c hc => (h c hc).1, by simpa using hfits⟩
  refine readAll_eq_ok_iff.mpr ⟨_, tail, spellsAll_encodeAll hall, ⟨?_, ?_⟩, rfl, rfl⟩
  · rw [List.dropLast_concat]
    exact fun c hc => (h c hc).2
  · exact .inr ⟨last, by simp, hterm⟩

/-- The same for the bytes of a whole channel: none of them is left. -/
theorem readAll_ofBytes {cs : List Command} {last : Command} {bytes : List UInt8}
    (hbytes : bytes = encodeAll clock.scale (cs ++ [last]))
    (h : ∀ c ∈ cs, c.Fits (maxLength clock.scale) ∧ c.isTerminator = false)
    (hfits : last.Fits (maxLength clock.scale)) (hterm : last.isTerminator = true) :
    readAll (.ofBytes bytes) = .ok (cs ++ [last]) ⟨bytes.length, []⟩ := by
  have hread := readAll_encodeAll bytes.length [] h hfits hterm
  rw [List.append_nil, ← hbytes] at hread
  exact hread

end Reader

end Chiptune
