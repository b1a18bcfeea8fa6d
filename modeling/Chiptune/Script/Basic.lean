import Chiptune.Channel.Event

/-!
# Song scripts

A song script has the macros of a song and the events of each channel.

## Main definitions

* `Script` — a song script.
-/

namespace Chiptune

/-- A song script. -/
structure Script where
  /-- The platform, unless the options name one. -/
  target : Option Platform
  /-- The tempo at the start of each channel. -/
  tempo : Nat
  /-- The options of the song. -/
  options : Options
  /-- The macros, in the order of their definitions. -/
  macros : List MacroDef
  /-- The events of each channel, in the order of the channels' names. -/
  channels : Keyed String (List Event)
  /-- The events of the pattern channel. -/
  pattern : List Event

namespace Script

/-- The tempo of a script that sets none. -/
def defaultTempo : Nat := 120

/-- A script without anything in it. -/
def empty : Script := ⟨none, defaultTempo, .default, [], .empty, []⟩

end Script

end Chiptune
