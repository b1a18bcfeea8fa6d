import Chiptune.Chip
import Chiptune.Stream.Command
import Chiptune.Timing

/-!
# Channels

A channel turns the notes of a score into a command stream. It predicts what the driver
remembers after the bytes written so far, an octave and a delay, and writes each note in the
shortest form that this allows.

This file has the state of a channel and the writing of timed commands into it. What events
do to a channel is in `Chiptune.Channel.Encoding`.

## Main definitions

* `Sound` — a note, a rest or a wait.
* `Channel` — the state of a channel.
* `Channel.octaveChange` — what has to happen to the driver's octave before a note.
* `Channel.writeNote`, `Channel.writeSilence` — write a note, or silence of any length.
-/

namespace Chiptune

/-- What fills some time on a channel. -/
inductive Sound where
  /-- A note of one of the twelve pitch classes. -/
  | note (pitch : Fin 12)
  /-- Silence. -/
  | rest
  /-- The last note, sounding on. -/
  | wait
  deriving DecidableEq, Repr

namespace Sound

/-- The note of any semitone number, by its pitch class. -/
def ofSemitone (n : Int) : Sound := note ⟨(n % 12).toNat, by omega⟩

/-- Whether the sound is a note. -/
def isNote : Sound → Bool
  | note _ => true
  | rest | wait => false

/-- The command for a sound, with its delay. -/
def command (length : Int) : Sound → Command
  | note pitch => .note (.ofNat pitch) length
  | rest => .rest length
  | wait => .wait length

/-- The command for a sound that takes the delay used before. -/
def shortCommand : Sound → Command
  | note pitch => .noteShort (.ofNat pitch)
  | rest => .restShort
  | wait => .waitShort

end Sound

/-- A sound that has not been written yet, because a tie can still make it longer. -/
structure PendingSound where
  /-- The sound. -/
  sound : Sound
  /-- Its length so far. -/
  ticks : Nat
  /-- The octave in which it was entered. -/
  octave : Octave
  deriving DecidableEq, Repr

namespace PendingSound

/-- The most ticks that a sound can have. -/
def maxTicks : Nat := 0xFFFFFFFF

/-- The sound with more ticks. -/
def extend (p : PendingSound) (ticks : Nat) : PendingSound :=
  { p with ticks := min (p.ticks + ticks) maxTicks }

end PendingSound

/-- An element of an open tuplet. -/
inductive TupletEntry where
  /-- A sound, which gets a share of the tuplet's length. -/
  | sound (sound : Sound)
  /-- A command that takes no time. -/
  | marker (command : Command)
  deriving DecidableEq, Repr

namespace TupletEntry

/-- Whether the entry takes time. -/
def isTimed : TupletEntry → Bool
  | sound _ => true
  | marker _ => false

end TupletEntry

/-- What plays a channel. -/
inductive Voice where
  /-- A voice of a chip. -/
  | physical (caps : Capabilities)
  /-- Nothing: the channel holds patterns that other channels share, and has neither tempo nor
  cutoff of its own. -/
  | pattern
  deriving Repr

namespace Voice

/-- The lowest octave. -/
def minOctave : Voice → Octave
  | physical caps => caps.minOctave
  | pattern => ⟨0, by decide⟩

/-- The highest octave. -/
def maxOctave : Voice → Octave
  | physical caps => caps.maxOctave
  | pattern => ⟨15, by decide⟩

/-- The loudest volume. -/
def maxVolume : Voice → UInt8
  | physical caps => caps.maxVolume
  | pattern => 255

/-- Whether effects of a kind can be used. -/
def supports : Voice → Effect → Bool
  | physical caps, e => caps.supports e
  | pattern, _ => true

/-- Whether there is no voice. -/
def isVirtual : Voice → Bool
  | physical _ => false
  | pattern => true

end Voice

/-- A place to which a channel jumps back at its end. -/
structure LoopPoint where
  /-- The byte offset in the stream. -/
  offset : Nat
  /-- The ticks before it. -/
  ticks : Nat
  deriving DecidableEq, Repr

/-- The state of a channel. -/
structure Channel where
  /-- Its name. -/
  name : String
  /-- What plays it. -/
  voice : Voice
  /-- The frame clock of the driver. -/
  clock : FrameClock
  /-- Quarter notes in a minute. -/
  tempo : Nat
  /-- The silent part of notes. -/
  cutoff : Cutoff
  /-- The octave in which notes are entered. -/
  octave : Octave
  /-- The driver's octave after the bytes written so far, if it is known. -/
  driverOctave : Option Octave
  /-- The last volume set. -/
  volume : Option UInt8
  /-- The sound that is still to be written. -/
  pending : Option PendingSound
  /-- The entries of the open tuplet, if there is one. -/
  tuplet : Option (Array TupletEntry)
  /-- The driver's delay after the bytes written so far, if it is known. -/
  lastLength : Option Int
  /-- The bytes written so far. -/
  data : Array UInt8
  /-- The ticks entered so far. -/
  ticks : Nat
  /-- The units written so far. A sum beyond 64 bits is outside the model. -/
  elapsed : Int
  /-- The place to jump back to. -/
  loopPoint : Option LoopPoint
  /-- Whether a note was entered. -/
  hasNotes : Bool
  /-- The effects switched on so far. -/
  effectsUsed : EffectSet
  /-- Whether the end of the stream was written. -/
  finished : Bool
  deriving Repr

/-- What has to happen to the driver's octave. -/
inductive OctaveChange where
  /-- Nothing. -/
  | none
  /-- One up. -/
  | up
  /-- One down. -/
  | down
  /-- It has to be set. -/
  | absolute (octave : Octave)
  deriving DecidableEq, Repr

namespace Channel

/-- The octave in which channels and drivers start. -/
def startOctave : Octave := ⟨4, by decide⟩

/-- A channel without events. -/
def new (name : String) (voice : Voice) (clock : FrameClock) (tempo : Nat) : Channel where
  name := name
  voice := voice
  clock := clock
  tempo := tempo
  cutoff := .default
  octave := startOctave
  driverOctave := some startOctave
  volume := none
  pending := none
  tuplet := none
  lastLength := none
  data := #[]
  ticks := 0
  elapsed := 0
  loopPoint := none
  hasNotes := false
  effectsUsed := .empty
  finished := false

/-- Units in a frame. -/
def scale (ch : Channel) : Int := ch.clock.scale

/-- Whole frames written so far. -/
def frames (ch : Channel) : Int := ch.elapsed.tdiv ch.scale

/-- Whether a tuplet is open. -/
def inTuplet (ch : Channel) : Bool := ch.tuplet.isSome

/-- Whether the channel holds patterns. -/
def isVirtual (ch : Channel) : Bool := ch.voice.isVirtual

/-- What has to happen to the driver's octave before a note in the octave `target`. -/
def octaveChange (ch : Channel) (target : Octave) : OctaveChange :=
  match ch.driverOctave with
  | some d =>
    if d = target then .none
    else if target.val = d.val + 1 then .up
    else if d.val = target.val + 1 then .down
    else .absolute target
  | none => .absolute target

/-! ### Entering sounds -/

/-- Notes that a note was entered. -/
def notice (ch : Channel) (sound : Sound) : Channel :=
  { ch with hasNotes := ch.hasNotes || sound.isNote }

/-- Lets a sound wait. -/
def enqueue (ch : Channel) (sound : Sound) (ticks : Nat) : Channel :=
  { ch with pending := some ⟨sound, ticks, ch.octave⟩ }

/-- Takes the sound that was waiting away and counts its ticks. -/
def dequeue (ch : Channel) (p : PendingSound) : Channel :=
  { ch with pending := none, ticks := ch.ticks + p.ticks }

/-! ### Writing commands -/

/-- Appends a command to the bytes. -/
def write (ch : Channel) (c : Command) : Channel :=
  { ch with data := ch.data ++ c.encode ch.scale }

/-- Appends a command that takes no time, to the open tuplet if there is one. -/
def emit (ch : Channel) (c : Command) : Channel :=
  match ch.tuplet with
  | some entries => { ch with tuplet := some (entries.push (.marker c)) }
  | none => ch.write c

/-- Sets the driver's octave by a command of its own. -/
def emitOctave (ch : Channel) (octave : Octave) : Channel :=
  if ch.octaveChange octave = .none then ch
  else { ch.emit (.octave (.ofNat octave)) with driverOctave := some octave }

/-- Sets the volume. -/
def emitVolume (ch : Channel) (volume : UInt8) : Channel :=
  { ch.emit (.volume volume) with volume := some volume }

/-- Switches a macro on. -/
def emitEffect (ch : Channel) (effect : Effect) (operand : UInt8) : Channel :=
  { ch.emit (.effectOn effect operand) with effectsUsed := ch.effectsUsed.insert effect }

/-- Adds a sound to the open tuplet, with a marker for the octave before a note. -/
def addEntry (ch : Channel) (sound : Sound) : Channel :=
  let ch := if sound.isNote then ch.emitOctave ch.octave else ch
  { ch with tuplet := ch.tuplet.map (·.push (.sound sound)) }

/-- Appends a sound, in short form if the driver has its delay already. -/
def writeSound (ch : Channel) (sound : Sound) (length : Int) : Channel :=
  if ch.lastLength = some length then
    { ch.write sound.shortCommand with elapsed := ch.elapsed + length }
  else
    { ch.write (sound.command length) with
      lastLength := some length, elapsed := ch.elapsed + length }

/-- Appends a note in some octave. If the driver has the delay already, a step of one octave
is part of the note's command. -/
def writeNote (ch : Channel) (pitch : Fin 12) (octave : Octave) (length : Int) : Channel :=
  if ch.lastLength = some length then
    let p : UInt8 := .ofNat pitch
    let ch := match ch.octaveChange octave with
      | .none => ch.write (.noteShort p)
      | .up => ch.write (.noteUp p)
      | .down => ch.write (.noteDown p)
      | .absolute o => (ch.write (.octave (.ofNat o))).write (.noteShort p)
    { ch with elapsed := ch.elapsed + length, driverOctave := some octave }
  else
    let ch := match ch.octaveChange octave with
      | .none => ch
      | _ => ch.write (.octave (.ofNat octave))
    { ch.writeSound (.note pitch) length with driverOctave := some octave }

/-- Appends silence, in several commands if it is longer than the longest delay. -/
def writeSilence (ch : Channel) (sound : Sound) (length : Int) : Channel :=
  if 0 < length then
    let part := min length (maxLength ch.scale)
    (ch.writeSound sound part).writeSilence sound (length - part)
  else ch
termination_by length.toNat
decreasing_by
  have := maxLength_pos ch.clock.scale_pos
  simp only [scale]
  omega

/-- Appends something and the silent part of its length, on the side where that belongs. -/
def writeWithCutoff (ch : Channel) (cutoff : Int) (body : Channel → Channel) : Channel :=
  if ch.cutoff.leading then body (ch.writeSilence .rest cutoff)
  else (body ch).writeSilence .rest cutoff

/-- Appends one entry of a tuplet. The octave of its notes is set by markers. -/
def writeEntry (ch : Channel) : TupletEntry × Int → Channel
  | (.marker c, _) => ch.write c
  | (.sound (.note pitch), length) => ch.writeSound (.note pitch) length
  | (.sound sound, length) => ch.writeSilence sound length

/-- Appends the entries of a tuplet, which share `active` units. -/
def writeEntries (ch : Channel) (entries : List TupletEntry) (active : Int) : Channel :=
  (entries.zip (distribute active (entries.map (·.isTimed)))).foldl writeEntry ch

/-! ### Loops and the end -/

/-- Marks the place after the bytes written so far as the one to jump back to. The driver may
arrive there with any octave and delay. -/
def markLoop (ch : Channel) : Channel :=
  { ch with
    loopPoint := some ⟨ch.data.size, ch.ticks⟩
    lastLength := none
    driverOctave := none }

/-- The farthest offset of a jump. -/
def maxJump : Nat := 0xFFFF

/-- The command that ends the channel, unless its loop point is out of reach. -/
def terminator (ch : Channel) : Except Nat Command :=
  match ch.loopPoint with
  | none => .ok .stop
  | some point =>
    if point.offset ≤ maxJump then .ok (.jump (.ofNat point.offset)) else .error point.offset

end Channel

end Chiptune
