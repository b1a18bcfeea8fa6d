import Chiptune.Error
import Chiptune.Macro.Param

/-!
# Packed records

Some chips want the settings of an envelope or a modulation packed into the bytes of their
registers. A layout gives the width of each field and the way in which the bytes are put
together. A record has no loop part.

## Main definitions

* `Record` — the kinds of record.
* `Record.Layout`, `Record.layout?` — how a chip wants a record.
* `Record.pack` — the bytes of a record.
* `Record.packSeq` — a macro that is a record, packed.
* `checkWaveform` — whether a macro is one period of a wave.
-/

namespace Chiptune

/-- A kind of record. -/
inductive Record where
  /-- An envelope. -/
  | adsr
  /-- A modulation. -/
  | modulation
  deriving DecidableEq, Repr

namespace Record

/-- The name of a record in messages. -/
def name : Record → String
  | adsr => "ADSR"
  | modulation => "modulation"

/-- How a chip wants a record. -/
structure Layout where
  /-- The width of each field in bits. -/
  widths : List Nat
  /-- The bytes of the fields. -/
  assemble : List UInt8 → List UInt8

/-- Attack and decay share a byte, sustain and release the next; the sustain level counts down. -/
def sharedInverted : List UInt8 → List UInt8
  | [attack, decay, sustain, release] =>
    [(attack <<< 4) ||| decay, ((sustain ^^^ 15) <<< 4) ||| release]
  | _ => []

/-- Attack and decay share a byte, sustain and release the next. -/
def shared : List UInt8 → List UInt8
  | [attack, decay, sustain, release] => [(attack <<< 4) ||| decay, (sustain <<< 4) ||| release]
  | _ => []

/-- Three rates as they are, then a byte with the level that follows from them. The attack is part
of the instrument on these chips. -/
def rates : List UInt8 → List UInt8
  | [decay, sustain, release] =>
    [decay, sustain, release, (release >>> 1) ||| (((sustain ^^^ 31) >>> 1) <<< 4)]
  | _ => []

/-- Frequency, two depths of which the second has a mark, waveform, and sensitivity above its
base. -/
def oscillator : List UInt8 → List UInt8
  | [frequency, amplitude, phase, wave, sensitivity] =>
    [frequency, amplitude, phase ||| 0x80, wave, sensitivity + 0xC0]
  | _ => []

/-- Feedback, then algorithm and connection in one byte. -/
def feedback : List UInt8 → List UInt8
  | [feedback, algorithm, connection] => [feedback, (algorithm * 8) ||| connection]
  | _ => []

/-- How a chip wants a record, if it has such records. -/
def layout? : Chip → Record → Option Layout
  | .ym2413, adsr => some ⟨[4, 4, 4, 4], sharedInverted⟩
  | .ym2612, adsr | .ym2151, adsr => some ⟨[5, 5, 5], rates⟩
  | .sid, adsr => some ⟨[4, 4, 4, 4], shared⟩
  | .ym2151, modulation => some ⟨[8, 7, 7, 2, 6], oscillator⟩
  | .ym2612, modulation => some ⟨[3, 3, 3], feedback⟩
  | _, _ => none

/-- How a chip wants a record. -/
def layout (chip : Chip) (record : Record) : Except Error Layout :=
  match layout? chip record with
  | some l => .ok l
  | none => .error (.unsupportedChip chip record.name)

/-- The number of fields of a record. -/
def arity (chip : Chip) (record : Record) : Except Error Nat := do
  return (← layout chip record).widths.length

/-- A parameter as a number from 0 to `largest`, the one at an index of a record. -/
def number (chip : Chip) (record : String) (index : Nat) (largest : Int) :
    Param → Except Error UInt8
  | .text text => .error (.paramType record index text)
  | .int n =>
    if 0 ≤ n ∧ n ≤ largest then .ok (.ofNat n.toNat)
    else .error (.paramRange chip record index n largest)

/-- The fields of a record from an index on, each with its width. -/
def fields (chip : Chip) (record : String) (index : Nat) :
    List (Param × Nat) → Except Error (List UInt8)
  | [] => .ok []
  | (param, width) :: rest => do
    let n ← number chip record index (2 ^ width - 1) param
    let ns ← fields chip record (index + 1) rest
    return n :: ns

/-- The bytes of a record. -/
def pack (chip : Chip) (record : Record) (params : List Param) : Except Error (List UInt8) := do
  let l ← layout chip record
  if params.length = l.widths.length then
    let ns ← fields chip record.name 0 (params.zip l.widths)
    return l.assemble ns
  else
    throw (.paramArity chip record.name l.widths.length params.length)

/-- A macro that is a record, packed. It has no loop part. -/
def packSeq (chip : Chip) (record : Record) (s : ParamSeq) : Except Error ParamSeq := do
  if s.loop.isEmpty then
    let bytes ← pack chip record s.main
    return ⟨bytes.map fun b => .int b.toNat, []⟩
  else
    throw (.paramArity chip record.name (← arity chip record) s.length)

end Record

/-- The samples in one period of a wave. -/
def waveLength : Nat := 32

/-- The width of a sample in bits. -/
def waveWidth : Nat := 5

/-- Checks that a macro is one period of a wave. -/
def checkWaveform (chip : Chip) (s : ParamSeq) : Except Error ParamSeq := do
  if s.length = waveLength ∧ s.loop = [] then
    let _ ← Record.fields chip "waveform" 0 (s.main.map (·, waveWidth))
    return s
  else
    throw (.paramArity chip "waveform" waveLength s.length)

end Chiptune
