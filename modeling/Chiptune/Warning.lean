import Chiptune.Effect

/-!
# Warnings

Problems that are reported and do not stop a compilation.

## Main definitions

* `Warning` — the problems.
* `Warning.message` — their wording.
-/

namespace Chiptune

/-- A problem that does not stop a compilation. -/
inductive Warning where
  /-- A note sounds for less than a frame. -/
  | noteTooShort (channel : String) (units scale : Int)
  /-- A note was cut down to the longest delay. -/
  | noteTooLong (channel : String) (units longest : Int)
  /-- A channel ends before the longest one. -/
  | lengthMismatch (channel : String) (ticks expected : Nat)
  /-- A channel's voice does not know an effect. -/
  | unsupportedEffect (channel : String) (effect : Effect)
  /-- A tie inside a tuplet extends nothing. -/
  | tieInTuplet (channel : String)
  deriving DecidableEq, Repr

namespace Warning

/-- The wording of a warning. -/
def message : Warning → String
  | noteTooShort channel units scale =>
    s!"Channel {channel}: note too short to be heard ({units} frames at scale {scale})"
  | noteTooLong channel units longest =>
    s!"Channel {channel}: note too long ({units} frames), clamped to {longest}"
  | lengthMismatch channel ticks expected =>
    s!"Channel {channel} is {ticks} ticks long, expected {expected}"
  | unsupportedEffect channel effect =>
    s!"Channel {channel} does not support {effect.name} macros, ignored"
  | tieInTuplet channel =>
    s!"Channel {channel}: tie inside a tuplet, ignored"

end Warning

end Chiptune
