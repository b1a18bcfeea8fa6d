import Chiptune.Assembly.Print
import Chiptune.Gzip.Member
import Chiptune.Json.Parse
import Chiptune.Output.Structured
import Chiptune.Script.Decode

/-!
# Compilation

From the bytes of a song script to the text of the output.

## Main definitions

* `Script.read` — reads a script, compressed or not.
* `Script.compile` — compiles a script.
* `Output.text` — the text of the output.
* `compileText` — all of it.
-/

namespace Chiptune

/-- Reads a script, compressed or not. -/
def Script.read (bytes : List UInt8) : Except Error Script :=
  let data := if Gzip.isCompressed bytes then Gzip.decompress? bytes else some bytes
  match data with
  | none => .error .file
  | some data =>
    match (Json.parse? data).bind Script.ofJson? with
    | none => .error .script
    | some script => .ok script

/-- The result of a compilation. -/
structure Compilation where
  /-- The output. -/
  output : Output
  /-- What was reported on the way. -/
  warnings : Array Warning

/-- The events of a channel, in order. -/
def applyEvents (events : List Event) : Encoding Unit := events.forM Event.apply

/-- Enters the events of the channels of a script. -/
def enterChannels (target : Platform) (channels : List (String × List Event)) : Composing Unit :=
  channels.forM fun (name, events) => fun (song, session) =>
    match song.onChannel? name (applyEvents events) session with
    | some result => result
    | none => .error (.unknownChannel name target.name) (song, session)

/-- Enters all events of a script and ends the song. -/
def composeSong (target : Platform) (script : Script) : Composing Unit := do
  enterChannels target script.channels.toList
  Song.onPattern (applyEvents script.pattern)
  Song.finish
  Song.onSession target.packMacros

/-- The platform for which a script is compiled. -/
def Script.platform (script : Script) (options : Options) : Platform :=
  (options.target <|> script.target).getD .sms

/-- Compiles a script in a session that has nothing in it yet. The session tells what was done
also if the compilation fails. -/
def Script.compileIn (script : Script) : EStateM Error Session Output := fun session =>
  let target := script.platform session.options
  if script.tempo = 0 then .error (.invalidTempo script.tempo) session
  else
    match Session.defineMacros script.macros session with
    | .error e session => .error e session
    | .ok _ session =>
      let song := Song.new target (session.options.clock target) script.tempo
      match composeSong target script (song, session) with
      | .error e (_, session) => .error e session
      | .ok _ (song, session) =>
        match Output.build target song session with
        | .error e => .error e session
        | .ok output => .ok output session

/-- Compiles a script. Options given here are on top of those of the script. -/
def Script.compile (script : Script) (options : Options) : Except Error Compilation :=
  match script.compileIn (.new (script.options.merge options)) with
  | .ok output session => .ok ⟨output, session.journal.warnings⟩
  | .error e _ => .error e

/-- The text of the output, as assembly or as JSON. -/
def Output.text (o : Output) (structured : Bool) : String :=
  if structured then o.structured else o.asm

/-- The text of the output for the bytes of a script, and the warnings. -/
def compileText (options : Options) (structured : Bool) (bytes : List UInt8) :
    Except Error (String × Array Warning) := do
  let script ← Script.read bytes
  let compilation ← script.compile options
  return (compilation.output.text structured, compilation.warnings)

end Chiptune
