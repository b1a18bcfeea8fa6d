import Chiptune.Song
import Chiptune.Stream.Reader

/-!
# Output

The output of a compilation: the stream of each channel and a table of the macros of each
effect, before it is written as assembly or as JSON.

## Main definitions

* `Cell` — an element of a table.
* `ChannelStream`, `MacroTable`, `Output` — the parts of the output, and all of it.
* `Output.build` — the output of a song.
-/

namespace Chiptune

/-- An element of a table. -/
inductive Cell where
  /-- A byte. -/
  | byte (value : UInt8)
  /-- A symbol that the assembler resolves. -/
  | symbol (name : String)
  deriving DecidableEq, Repr

/-- The stream of a channel. -/
structure ChannelStream where
  /-- The name of the channel. -/
  name : String
  /-- The bytes. -/
  data : List UInt8
  /-- The offset to which the channel jumps back. -/
  loopOffset : Option Nat
  /-- The length in ticks. -/
  ticks : Nat
  /-- The length in frames. -/
  frames : Int
  /-- Whether the channel holds patterns. -/
  isVirtual : Bool
  /-- The commands that the bytes are. -/
  commands : List Command
  deriving Repr

/-- A macro in a table. -/
structure TableEntry where
  /-- Its key. -/
  key : Nat
  /-- The part that is read once. -/
  main : List Cell
  /-- The part that is repeated. -/
  loop : List Cell
  /-- How many commands select it. -/
  refCount : Nat
  deriving Repr

/-- The macros of an effect. -/
structure MacroTable where
  /-- The effect. -/
  effect : Effect
  /-- The macros in the order of their keys. -/
  entries : List TableEntry
  deriving Repr

/-- The output of a compilation. -/
structure Output where
  /-- The platform. -/
  target : Platform
  /-- The assembler for which it is written. -/
  dialect : Dialect
  /-- The channels of all voices, and then that of the patterns if there are any. -/
  channels : List ChannelStream
  /-- The tables in the driver's numbering of the effects. -/
  tables : List MacroTable
  /-- The bytes of all voices. -/
  binarySize : Nat
  deriving Repr

/-- The stream of a channel. -/
def ChannelStream.ofChannel (ch : Channel) : Except Error ChannelStream := do
  let data := ch.data.toList
  let commands ← decodeCommands data
  return ⟨ch.name, data, ch.loopPoint.map (·.offset), ch.ticks, ch.frames, ch.isVirtual, commands⟩

/-- The element of a table for a parameter. Negative numbers are stored in two's complement. -/
def Cell.ofParam (effect : Effect) (key : Nat) : Param → Except Error Cell
  | .text s => .ok (.symbol s)
  | .int n =>
    if -128 ≤ n ∧ n ≤ 255 then .ok (.byte (.ofInt n)) else .error (.tableValue effect key n)

/-- The most elements in a part of a macro; their number is a byte. -/
def maxCells : Nat := 255

/-- A part of a macro in a table. -/
def TableEntry.part (effect : Effect) (key : Nat) (params : List Param) :
    Except Error (List Cell) :=
  if maxCells < params.length then .error (.tableTooLong effect key params.length)
  else params.mapM (Cell.ofParam effect key)

/-- A macro in a table, with the key that it got. -/
def TableEntry.ofMacro (effect : Effect) (m : Macro) : Except Error TableEntry := do
  let main ← part effect m.key m.seq.main
  let loop ← part effect m.key m.seq.loop
  return ⟨m.key, main, loop, m.refCount⟩

/-- The table of an effect, perhaps without the macros that nothing selects. -/
def MacroTable.ofRegistry (skipUnreferenced : Bool) (r : Registry) : Except Error MacroTable := do
  let kept := r.entries.toList.filter fun e => !(skipUnreferenced && e.2.refCount == 0)
  let entries ← kept.mapM fun e => TableEntry.ofMacro r.effect e.2
  return ⟨r.effect, entries⟩

/-- The channels that are part of the output. A pattern channel that only ends is not. -/
def Song.outputChannels (song : Song) : List Channel :=
  if song.pattern.data = #[0xFF] then song.channels else song.channels ++ [song.pattern]

/-- The output of a song. -/
def Output.build (p : Platform) (song : Song) (session : Session) : Except Error Output := do
  let channels ← song.outputChannels.mapM ChannelStream.ofChannel
  let defined := session.macros.toList.filter fun r => !r.entries.isEmpty
  let tables ← defined.mapM (MacroTable.ofRegistry session.options.skipUnreferenced)
  return ⟨p, session.options.dialect.getD p.dialect, channels, tables, song.binarySize⟩

end Chiptune
