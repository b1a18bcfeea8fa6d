import Chiptune.Effect
import Chiptune.Stream.Delay

/-!
# Channel commands

A channel is a stream of commands for the sound driver. A command is an opcode byte,
perhaps followed by operands. The driver remembers the octave and the last delay, so a note
can be written in a short form that uses what it remembers.

## Main definitions

* `Command` — the commands.
* `Command.encode` — the bytes of a command.
* `Command.decode` — the command at the front of some bytes, or what is wrong with them.
* `Command.decode_lt` — a command takes at least one byte.
-/

namespace Chiptune

/-- A command of a channel stream. -/
inductive Command where
  /-- A note, with its delay. -/
  | note (pitch : UInt8) (length : Int)
  /-- A note with the delay used before. -/
  | noteShort (pitch : UInt8)
  /-- One octave up, then a note with the delay used before. -/
  | noteUp (pitch : UInt8)
  /-- One octave down, then a note with the delay used before. -/
  | noteDown (pitch : UInt8)
  /-- Silence. -/
  | rest (length : Int)
  /-- Silence with the delay used before. -/
  | restShort
  /-- Time that passes while the last note sounds on. -/
  | wait (length : Int)
  /-- Such time with the delay used before. -/
  | waitShort
  /-- Selects an octave. -/
  | octave (octave : UInt8)
  /-- Sets the volume. -/
  | volume (volume : UInt8)
  /-- Switches a macro on. The operand holds its key and when it steps. -/
  | effectOn (effect : Effect) (operand : UInt8)
  /-- Switches an effect off. -/
  | effectOff (effect : Effect)
  /-- Continues at a byte offset of the stream. -/
  | jump (offset : UInt16)
  /-- Ends the channel. -/
  | stop
  deriving DecidableEq, Repr, Inhabited

namespace Command

/-- Whether nothing after the command is played. -/
def isTerminator : Command → Bool
  | jump _ | stop => true
  | _ => false

/-- The bytes of a command for a driver with `scale` units in a frame. -/
def encode (scale : Int) : Command → List UInt8
  | note pitch length => pitch :: Delay.encode length scale
  | noteShort pitch => [pitch ||| 0x80]
  | noteUp pitch => [pitch ||| 0x20]
  | noteDown pitch => [pitch ||| 0x40]
  | rest length => 0x0C :: Delay.encode length scale
  | restShort => [0x8C]
  | wait length => 0x0D :: Delay.encode length scale
  | waitShort => [0x8D]
  | octave o => [0x10 ||| o]
  | volume v => [0x30, v]
  | effectOn effect operand => [0xE0 + .ofNat effect.index, operand]
  | effectOff effect => [0xF0, .ofNat effect.index]
  | jump offset => [0xF9, offset.toUInt8, (offset >>> 8).toUInt8]
  | stop => [0xFF]

/-- The bytes of a stream of commands. -/
def encodeAll (scale : Int) (cs : List Command) : List UInt8 := cs.flatMap (encode scale)

/-- What can be wrong with the bytes of a stream. -/
inductive Defect where
  /-- The data ends inside a command. -/
  | endOfData
  /-- The data ends inside a delay. -/
  | truncatedDelay
  /-- No command has this opcode. -/
  | unknownOpcode (opcode : UInt8)
  /-- No effect has this number. -/
  | unknownEffect (index : UInt8)
  deriving DecidableEq, Repr

/-- A defect, and how many bytes were taken before it was noticed. -/
structure Fault where
  /-- What is wrong. -/
  defect : Defect
  /-- The bytes taken from the front of the data. -/
  taken : Nat
  deriving DecidableEq, Repr

/-- A command that has only its opcode, or one that goes on with a delay. -/
inductive Shape where
  /-- The opcode is the whole command. -/
  | bare (command : Command)
  /-- A delay follows. -/
  | timed (build : Int → Command)
  /-- There is no such opcode. -/
  | unknown

/-- The opcodes for notes and silence: the low four bits select the pitch, rest or wait, and the
high four the form. -/
def shapeOf (opcode : UInt8) : Shape :=
  let pitch := opcode &&& 0x0F
  let form := opcode &&& 0xF0
  if pitch < 12 then
    if form = 0 then .timed (note pitch)
    else if form = 0x80 then .bare (noteShort pitch)
    else if form = 0x20 then .bare (noteUp pitch)
    else if form = 0x40 then .bare (noteDown pitch)
    else .unknown
  else if opcode = 0x0C then .timed rest
  else if opcode = 0x8C then .bare restShort
  else if opcode = 0x0D then .timed wait
  else if opcode = 0x8D then .bare waitShort
  else .unknown

/-- Reads the command with a given opcode from the bytes after it. -/
def decodeAfter (opcode : UInt8) (tail : List UInt8) : Except Fault (Command × List UInt8) :=
  if opcode = 0xFF then
    .ok (stop, tail)
  else if opcode = 0xF9 then
    match tail with
    | low :: high :: tail => .ok (jump (low.toUInt16 ||| (high.toUInt16 <<< 8)), tail)
    | tail => .error ⟨.endOfData, tail.length + 1⟩
  else if opcode = 0xF0 then
    match tail with
    | index :: tail =>
      match Effect.ofIndex? index.toNat with
      | some effect => .ok (effectOff effect, tail)
      | none => .error ⟨.unknownEffect index, 2⟩
    | [] => .error ⟨.endOfData, 1⟩
  else if 0xE0 ≤ opcode ∧ opcode ≤ 0xEF then
    match Effect.ofIndex? (opcode - 0xE0).toNat with
    | some effect =>
      match tail with
      | operand :: tail => .ok (effectOn effect operand, tail)
      | [] => .error ⟨.endOfData, 1⟩
    | none => .error ⟨.unknownOpcode opcode, 1⟩
  else if opcode = 0x30 then
    match tail with
    | level :: tail => .ok (volume level, tail)
    | [] => .error ⟨.endOfData, 1⟩
  else if 0x10 ≤ opcode ∧ opcode ≤ 0x1F then
    .ok (octave (opcode &&& 0x0F), tail)
  else
    match shapeOf opcode with
    | .bare command => .ok (command, tail)
    | .timed build =>
      match Delay.decode? tail with
      | some (length, tail) => .ok (build length, tail)
      | none => .error ⟨.truncatedDelay, 1⟩
    | .unknown => .error ⟨.unknownOpcode opcode, 0⟩

/-- Reads the command at the front of some bytes. -/
def decode : List UInt8 → Except Fault (Command × List UInt8)
  | [] => .error ⟨.endOfData, 0⟩
  | opcode :: tail => decodeAfter opcode tail

/-- What is left after a command's opcode is not longer after its operands. -/
theorem decodeAfter_le {opcode : UInt8} {bytes rest : List UInt8} {c : Command}
    (h : decodeAfter opcode bytes = .ok (c, rest)) : rest.length ≤ bytes.length := by
  unfold decodeAfter at h
  repeat' split at h
  all_goals simp only [Except.ok.injEq, Prod.mk.injEq, reduceCtorEq] at h
  all_goals obtain ⟨-, rfl⟩ := h
  all_goals try simp only [List.length_cons]
  all_goals try omega
  next h' => have := Delay.length_of_decode? h'; omega

/-- A command takes at least one byte. -/
theorem decode_lt {bytes rest : List UInt8} {c : Command}
    (h : decode bytes = .ok (c, rest)) : rest.length < bytes.length := by
  cases bytes with
  | nil => simp [decode] at h
  | cons opcode bytes =>
    have := decodeAfter_le (show decodeAfter opcode bytes = .ok (c, rest) from h)
    simpa using Nat.lt_succ_of_le this

end Command

end Chiptune
