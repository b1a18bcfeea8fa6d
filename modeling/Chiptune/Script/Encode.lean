import Chiptune.Json.Basic
import Chiptune.Script.Basic

/-!
# Writing the parts of a script

The JSON values that the parts of a script are written as, with every field given.

## Main definitions

* `Event.toJson`, `MacroDef.toJson`, `Options.toJson`, `Script.toJson` — the parts as JSON.
-/

namespace Chiptune

/-- An optional value as JSON. -/
def Json.ofOption {α : Type} (f : α → Json) : Option α → Json
  | some a => f a
  | none => null

/-- A natural number as JSON. -/
def Json.nat (n : Nat) : Json := int n

/-- A parameter as JSON. -/
def Param.toJson : Param → Json
  | .int n => .int n
  | .text s => .string s

/-- A sequence of parameters as JSON. -/
def ParamSeq.toJson (s : ParamSeq) : Json :=
  .object [("main", .array (s.main.map Param.toJson)), ("loop", .array (s.loop.map Param.toJson))]

/-- A cutoff as JSON. -/
def Cutoff.toJson (c : Cutoff) : Json :=
  .object [("policy", .string c.policy), ("value", .int c.value)]

/-- A frame clock as JSON. -/
def FrameClock.toJson (c : FrameClock) : Json :=
  .object [("refresh_hz", .nat c.refreshHz), ("fractional", .bool c.fractional)]

/-- The kind of an event and its other fields. -/
def Event.fields : Event → String × List (String × Json)
  | .note semitone ticks => ("note", [("pitch", .int semitone), ("ticks", .nat ticks)])
  | .rest ticks => ("rest", [("ticks", .nat ticks)])
  | .wait ticks => ("wait", [("ticks", .nat ticks)])
  | .tie ticks => ("tie", [("ticks", .nat ticks)])
  | .octave n => ("octave", [("octave", .int n)])
  | .octaveUp => ("octave_up", [])
  | .octaveDown => ("octave_down", [])
  | .tempo n => ("tempo", [("bpm", .nat n)])
  | .volume n => ("volume", [("volume", .int n)])
  | .cutoff c => ("cutoff", [("cutoff", c.toJson)])
  | .tupletStart => ("tuplet_start", [])
  | .tupletEnd ticks => ("tuplet_end", [("ticks", .nat ticks)])
  | .loopPoint => ("loop_point", [])
  | .blockEnd => ("block_end", [])
  | .effect e key everyNote =>
    ("effect", [("kind", .string e.tag), ("key", .nat key), ("every_note", .bool everyNote)])
  | .effectOff e => ("effect_off", [("kind", .string e.tag)])

/-- An event as JSON. -/
def Event.toJson (e : Event) : Json := .object (("cmd", .string e.fields.1) :: e.fields.2)

/-- The definition of a macro as JSON. -/
def MacroDef.toJson (d : MacroDef) : Json :=
  .object
    [("kind", .string d.effect.tag), ("key", .ofOption .nat d.key),
      ("main", .array (d.seq.main.map Param.toJson)),
      ("loop", .array (d.seq.loop.map Param.toJson)),
      ("extra", .object (d.extras.toList.map fun e => (e.1, e.2.toJson)))]

/-- Options as JSON. -/
def Options.toJson (o : Options) : Json :=
  .object
    [("warnings-as-errors", .bool o.warningsAsErrors),
      ("skip-unreferenced-tables", .bool o.skipUnreferenced),
      ("target", .ofOption (.string ·.name) o.target),
      ("syntax", .ofOption (.string ·.tag) o.dialect),
      ("refresh-hz", .ofOption .nat o.refreshHz),
      ("fractional-delays", .ofOption .bool o.fractional)]

/-- A script as JSON. -/
def Script.toJson (s : Script) : Json :=
  .object
    [("target", .ofOption (.string ·.name) s.target), ("tempo", .nat s.tempo),
      ("options", s.options.toJson), ("effects", .array (s.macros.map MacroDef.toJson)),
      ("channels", .object (s.channels.toList.map fun c => (c.1, .array (c.2.map Event.toJson)))),
      ("pattern", .array (s.pattern.map Event.toJson))]

end Chiptune
