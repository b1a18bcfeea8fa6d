import Chiptune.Channel.Encoding

/-!
# Events

The score of a channel is a list of events.

## Main definitions

* `Event` — the events.
* `Event.apply` — what an event does to a channel.
-/

namespace Chiptune

/-- An event of a channel's score. -/
inductive Event where
  /-- A note, by its semitone. Only the pitch class counts; the octave is set apart. -/
  | note (semitone : Int) (ticks : Nat)
  /-- Silence. -/
  | rest (ticks : Nat)
  /-- Time in which the last note sounds on. -/
  | wait (ticks : Nat)
  /-- More time for the sound before. -/
  | tie (ticks : Nat)
  /-- Selects an octave. -/
  | octave (octave : Int)
  /-- One octave up. -/
  | octaveUp
  /-- One octave down. -/
  | octaveDown
  /-- Sets the tempo. -/
  | tempo (tempo : Nat)
  /-- Sets the volume. -/
  | volume (volume : Int)
  /-- Sets the cutoff. -/
  | cutoff (cutoff : Cutoff)
  /-- Opens a tuplet. -/
  | tupletStart
  /-- Closes a tuplet, which fills some ticks. -/
  | tupletEnd (ticks : Nat)
  /-- Marks the place to jump back to. -/
  | loopPoint
  /-- Ends a block, at which the driver has to be in the current octave. -/
  | blockEnd
  /-- Switches a macro on. -/
  | effect (effect : Effect) (key : Nat) (everyNote : Bool)
  /-- Switches an effect off. -/
  | effectOff (effect : Effect)
  deriving DecidableEq, Repr

namespace Event

/-- What an event does to a channel. -/
def apply : Event → Encoding Unit
  | note semitone ticks => Encoding.enter (.ofSemitone semitone) ticks
  | rest ticks => Encoding.enter .rest ticks
  | wait ticks => Encoding.enter .wait ticks
  | tie ticks => Encoding.tie ticks
  | octave n => Encoding.setOctave n
  | octaveUp => Encoding.shiftOctave 1
  | octaveDown => Encoding.shiftOctave (-1)
  | tempo n => Encoding.setTempo n
  | volume n => Encoding.setVolume n
  | cutoff c => Encoding.setCutoff c
  | tupletStart => Encoding.beginTuplet
  | tupletEnd ticks => Encoding.endTuplet ticks
  | loopPoint => Encoding.setLoopPoint
  | blockEnd => Encoding.flushOctave
  | effect e key everyNote => Encoding.useEffect e key everyNote
  | effectOff e => Encoding.disableEffect e

end Event

end Chiptune
