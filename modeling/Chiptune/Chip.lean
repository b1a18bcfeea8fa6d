import Chiptune.Effect

/-!
# Sound chips

Every voice of a chip has the same capabilities: the octaves it can play, the loudest
volume it knows and the effects its driver implements.

## Main definitions

* `Chip` — the sound chips.
* `Octave` — an octave as the command stream can carry it, in four bits.
* `Capabilities`, `Chip.capabilities` — what one voice of a chip accepts.
-/

namespace Chiptune

/-- An octave. The octave command has four bits for it. -/
abbrev Octave := Fin 16

/-- A sound chip. -/
inductive Chip where
  | sn76489
  | ym2413
  | ym2612
  | ym2151
  | sid
  | huC6280
  | apu2A03
  | ay8910
  deriving DecidableEq, Repr, Inhabited

namespace Chip

/-- Every chip. -/
def all : List Chip := [sn76489, ym2413, ym2612, ym2151, sid, huC6280, apu2A03, ay8910]

/-- The maker's name of a chip. -/
def name : Chip → String
  | sn76489 => "SN76489"
  | ym2413 => "YM2413"
  | ym2612 => "YM2612"
  | ym2151 => "YM2151"
  | sid => "SID"
  | huC6280 => "HuC6280"
  | apu2A03 => "2A03"
  | ay8910 => "AY-3-8910"

/-- The chip as messages spell it. -/
def spelling : Chip → String
  | sn76489 => "Sn76489"
  | ym2413 => "Ym2413"
  | ym2612 => "Ym2612"
  | ym2151 => "Ym2151"
  | sid => "Sid"
  | huC6280 => "HuC6280"
  | apu2A03 => "Apu2A03"
  | ay8910 => "Ay8910"

/-- The tag of a chip in structured data. -/
def tag : Chip → String
  | sn76489 => "sn76489"
  | ym2413 => "ym2413"
  | ym2612 => "ym2612"
  | ym2151 => "ym2151"
  | sid => "sid"
  | huC6280 => "huc6280"
  | apu2A03 => "2a03"
  | ay8910 => "ay8910"

/-- The chip with a given tag. -/
def ofTag? (s : String) : Option Chip := all.find? (·.tag == s)

end Chip

/-- What one voice accepts. -/
structure Capabilities where
  /-- The chip that the voice belongs to. -/
  chip : Chip
  /-- The lowest octave. -/
  minOctave : Octave
  /-- The highest octave. -/
  maxOctave : Octave
  /-- The loudest volume. -/
  maxVolume : UInt8
  /-- The effects that the voice supports. -/
  effects : EffectSet
  deriving Repr

namespace Capabilities

/-- Whether the voice supports an effect. -/
def supports (c : Capabilities) (e : Effect) : Bool := c.effects.contains e

/-- The same voice without some effects. -/
def without (c : Capabilities) (gone : List Effect) : Capabilities :=
  { c with effects := c.effects.without gone }

end Capabilities

namespace Chip

/-- The effects of a chip. -/
def effects : Chip → List Effect
  | sn76489 => [.arpeggio, .vibrato, .volume, .duty, .pitch, .portamento]
  | ym2413 => [.arpeggio, .vibrato, .volume, .pitch, .adsr, .portamento]
  | ym2612 => [.arpeggio, .vibrato, .volume, .pan, .pitch, .feedback, .modulation, .adsr,
      .portamento, .pcmSample]
  | ym2151 => [.arpeggio, .vibrato, .volume, .pan, .pitch, .feedback, .modulation, .adsr,
      .portamento]
  | sid => [.arpeggio, .vibrato, .volume, .duty, .pitch, .adsr, .filter, .portamento]
  | huC6280 => [.arpeggio, .vibrato, .volume, .pan, .pitch, .portamento, .waveform,
      .waveformMacro, .pcmSample]
  | apu2A03 => [.arpeggio, .vibrato, .volume, .duty, .pitch, .portamento, .pcmSample]
  | ay8910 => [.arpeggio, .vibrato, .volume, .duty, .pitch, .portamento]

/-- The lowest octave of a chip; the highest is the seventh for all of them. -/
def minOctave : Chip → Octave
  | ym2413 | ym2612 | ym2151 | sid => 0
  | sn76489 | huC6280 | apu2A03 | ay8910 => 1

/-- The loudest volume of a chip. -/
def maxVolume : Chip → UInt8
  | ym2612 | ym2151 => 127
  | huC6280 => 31
  | sn76489 | ym2413 | sid | apu2A03 | ay8910 => 15

/-- The capabilities that every voice of a chip has. -/
def capabilities (c : Chip) : Capabilities where
  chip := c
  minOctave := c.minOctave
  maxOctave := 7
  maxVolume := c.maxVolume
  effects := .ofList c.effects

end Chip

end Chiptune
