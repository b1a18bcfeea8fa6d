import Chiptune.Assembly.Dialect
import Chiptune.Chip
import Chiptune.Error
import Chiptune.Timing

/-!
# Platforms

A platform is a machine with one or two sound chips and a driver for them. It fixes the
voices, the frame clock and the assembler; options can override the last two.

## Main definitions

* `Platform` — the machines.
* `Platform.voices` — the channels of a machine, by letter.
* `Platform.ofName` — the machine of a name, in small or capital letters.
-/

namespace Chiptune

/-- A machine that output can be made for. -/
inductive Platform where
  /-- Sega Master System. -/
  | sms
  /-- Sega Genesis. -/
  | genesis
  /-- Sharp X68000. -/
  | x68000
  /-- Commodore 64. -/
  | c64
  /-- PC Engine. -/
  | pce
  /-- Famicom. -/
  | nes
  /-- Amstrad CPC. -/
  | cpc
  deriving DecidableEq, Repr, Inhabited

namespace Platform

/-- Every platform. -/
def all : List Platform := [sms, genesis, x68000, c64, pce, nes, cpc]

/-- The short name. -/
def name : Platform → String
  | sms => "sms"
  | genesis => "genesis"
  | x68000 => "x68000"
  | c64 => "c64"
  | pce => "pce"
  | nes => "nes"
  | cpc => "cpc"

/-- The machine and its chips. -/
def description : Platform → String
  | sms => "Sega Master System (SN76489 + YM2413)"
  | genesis => "Sega Genesis (YM2612 + SN76489)"
  | x68000 => "Sharp X68000 (YM2151)"
  | c64 => "Commodore 64 (SID)"
  | pce => "PC Engine (HuC6280)"
  | nes => "Famicom / NES (2A03)"
  | cpc => "Amstrad CPC (AY-3-8910)"

/-- The frame clock of the driver. -/
def clock : Platform → FrameClock
  | sms | genesis => ⟨60, true⟩
  | x68000 | pce | nes => ⟨60, false⟩
  | c64 | cpc => ⟨50, false⟩

/-- The assembler that output is written for. -/
def dialect : Platform → Dialect
  | genesis | x68000 => .gnuAs
  | sms | c64 | pce | nes | cpc => .wlaDx

/-- The capabilities of each voice, in output order. -/
def voiceCapabilities : Platform → List Capabilities
  | sms => .replicate 4 Chip.sn76489.capabilities ++ .replicate 9 Chip.ym2413.capabilities
  | genesis =>
    -- only the last of the six voices can play samples
    .replicate 5 (Chip.ym2612.capabilities.without [.pcmSample]) ++
      [Chip.ym2612.capabilities] ++ .replicate 4 Chip.sn76489.capabilities
  | x68000 => .replicate 8 Chip.ym2151.capabilities
  | c64 => .replicate 3 Chip.sid.capabilities
  | pce => .replicate 6 Chip.huC6280.capabilities
  | nes =>
    -- two pulse voices, triangle, noise and samples
    [Chip.apu2A03.capabilities.without [.pcmSample], Chip.apu2A03.capabilities.without [.pcmSample],
      Chip.apu2A03.capabilities.without [.duty, .pcmSample],
      Chip.apu2A03.capabilities.without [.pcmSample], Chip.apu2A03.capabilities]
  | cpc => .replicate 3 Chip.ay8910.capabilities

/-- The name of the voice at a place: A, B, C and so on. -/
def voiceName (i : Nat) : String := String.singleton (Char.ofNat (65 + i))

/-- The voices with their names, in output order. -/
def voices (p : Platform) : List (String × Capabilities) :=
  p.voiceCapabilities.mapIdx fun i c => (voiceName i, c)

/-- The platform with a given tag; the tags are the names. -/
def ofTag? (s : String) : Option Platform := all.find? (·.name == s)

/-- The platform of a name, in which capital letters count as small ones. -/
def ofName (s : String) : Except Error Platform :=
  match all.find? (·.name == s.map Char.toLower) with
  | some p => .ok p
  | none => .error (.unknownTarget s)

end Platform

end Chiptune
