import Chiptune.Json.Print
import Chiptune.Output
import Chiptune.Script.Encode

/-!
# Structured output

Output can be written as JSON instead of assembly.

## Main definitions

* `Command.toJson`, `Output.toJson` — commands and output as JSON.
* `Output.structured` — the text of the output.
-/

namespace Chiptune

/-- A byte as JSON. -/
def Json.byte (b : UInt8) : Json := .nat b.toNat

/-- The kind of a command and its operands. -/
def Command.fields : Command → String × List (String × Json)
  | .note pitch length => ("note", [("pitch", .byte pitch), ("length", .int length)])
  | .noteShort pitch => ("note_short", [("pitch", .byte pitch)])
  | .noteUp pitch => ("note_octave_up", [("pitch", .byte pitch)])
  | .noteDown pitch => ("note_octave_down", [("pitch", .byte pitch)])
  | .rest length => ("rest", [("length", .int length)])
  | .restShort => ("rest_short", [])
  | .wait length => ("wait", [("length", .int length)])
  | .waitShort => ("wait_short", [])
  | .octave o => ("octave", [("octave", .byte o)])
  | .volume v => ("volume", [("volume", .byte v)])
  | .effectOn e operand => ("effect_on", [("kind", .string e.tag), ("key", .byte operand)])
  | .effectOff e => ("effect_off", [("kind", .string e.tag)])
  | .jump offset => ("jump", [("offset", .nat offset.toNat)])
  | .stop => ("end", [])

/-- A command as JSON. -/
def Command.toJson (c : Command) : Json := .object (("cmd", .string c.fields.1) :: c.fields.2)

/-- An element of a table as JSON. -/
def Cell.toJson : Cell → Json
  | .byte b => .byte b
  | .symbol s => .string s

/-- A channel as JSON. -/
def ChannelStream.toJson (ch : ChannelStream) : Json :=
  .object
    [("name", .string ch.name), ("data", .array (ch.data.map .byte)),
      ("loop_offset", .ofOption .nat ch.loopOffset), ("ticks", .nat ch.ticks),
      ("frames", .int ch.frames), ("is_virtual", .bool ch.isVirtual),
      ("commands", .array (ch.commands.map Command.toJson))]

/-- A macro in a table as JSON. -/
def TableEntry.toJson (e : TableEntry) : Json :=
  .object
    [("key", .nat e.key), ("main", .array (e.main.map Cell.toJson)),
      ("loop", .array (e.loop.map Cell.toJson)), ("ref_count", .nat e.refCount)]

/-- A table as JSON. -/
def MacroTable.toJson (t : MacroTable) : Json :=
  .object
    [("kind", .string t.effect.tag), ("label", .string t.effect.label),
      ("entries", .array (t.entries.map TableEntry.toJson))]

namespace Output

/-- Output as JSON. -/
def toJson (o : Output) : Json :=
  .object
    [("target", .string o.target.name), ("syntax", .string o.dialect.tag),
      ("channels", .array (o.channels.map ChannelStream.toJson)),
      ("tables", .array (o.tables.map MacroTable.toJson)), ("binary_size", .nat o.binarySize)]

/-- The text of structured output. -/
def structured (o : Output) : String := o.toJson.pretty ++ "\n"

end Output

end Chiptune
