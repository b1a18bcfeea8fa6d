import Chiptune.Chip
import Chiptune.Stream.Command
import Chiptune.Text.Quoted
import Chiptune.Warning

/-!
# Errors

Everything that stops a compilation, by its cause.

## Main definitions

* `Error` — the causes.
* `Error.message` — their wording.
-/

namespace Chiptune

namespace Command

/-- The wording of a defect. -/
def Defect.message : Defect → String
  | endOfData => "Unexpected end of data"
  | truncatedDelay => "Truncated length operand"
  | unknownOpcode opcode => "Unknown opcode $" ++ Text.hexByte opcode
  | unknownEffect index => s!"Unknown effect kind {index.toNat}"

end Command

/-- A cause for a compilation to stop. -/
inductive Error where
  /-- The sounding or the silent part of a note is shorter than nothing. -/
  | negativeLength (channel : String) (active cutoff : Int)
  /-- Time does not pass at this tempo. -/
  | invalidTempo (tempo : Nat)
  /-- A record has the wrong number of fields. -/
  | paramArity (chip : Chip) (record : String) (expected found : Nat)
  /-- A field of a record is too large or negative. -/
  | paramRange (chip : Chip) (record : String) (index : Nat) (value largest : Int)
  /-- A field of a record is a symbol. -/
  | paramType (record : String) (index : Nat) (text : String)
  /-- A chip does not have such a record. -/
  | unsupportedChip (chip : Chip) (record : String)
  /-- There is no macro under a key. -/
  | undefinedMacro (effect : Effect) (key : Nat)
  /-- There is no key left for a macro. -/
  | registryFull (effect : Effect)
  /-- The macros of an effect were packed before. -/
  | alreadyPacked (effect : Effect)
  /-- A voice cannot play this. -/
  | outOfRange (channel what : String) (value lowest highest : Int)
  /-- A tuplet is open where none may be. -/
  | tupletAlreadyOpen (channel : String)
  /-- There is no tuplet to close. -/
  | tupletNotOpen (channel : String)
  /-- A channel ends inside a tuplet. -/
  | unterminatedTuplet (channel : String)
  /-- A parameter does not fit a byte of a table. -/
  | tableValue (effect : Effect) (key : Nat) (value : Int)
  /-- A part of a macro does not fit a table. -/
  | tableTooLong (effect : Effect) (key length : Nat)
  /-- A loop point is out of reach of a jump. -/
  | loopTooFar (channel : String) (offset : Nat)
  /-- There is no platform of this name. -/
  | unknownTarget (name : String)
  /-- A platform has no channel of this name. -/
  | unknownChannel (channel target : String)
  /-- The bytes of a command stream are defective. -/
  | stream (offset : Nat) (defect : Command.Defect)
  /-- A warning, where warnings are not tolerated. -/
  | promoted (warning : Warning)
  /-- A song script is malformed. -/
  | script
  /-- A file cannot be read or written. -/
  | file
  deriving DecidableEq, Repr

namespace Error

/-- The wording of an error. -/
def message : Error → String
  | negativeLength channel active cutoff =>
    s!"Negative note length on channel {channel}: {active} active / {cutoff} cutoff frames"
  | invalidTempo tempo => s!"Invalid tempo: {tempo}"
  | paramArity chip record expected found =>
    s!"{chip.spelling} {record} expects {expected} parameters, got {found}"
  | paramRange chip record index value largest =>
    s!"{chip.spelling} {record} parameter {index} out of range: {value} (max {largest})"
  | paramType record index text =>
    s!"{record} parameter {index} is not a number: {Text.quote text}"
  | unsupportedChip chip record => s!"{chip.spelling} has no {record} record format"
  | undefinedMacro effect key => s!"Undefined {effect.name} macro {key}"
  | registryFull effect => s!"Too many {effect.name} macros (keys must be below 128)"
  | alreadyPacked effect => s!"{effect.name} macro tables were already packed for output"
  | outOfRange channel what value lowest highest =>
    s!"Channel {channel}: {what} {value} out of range ({lowest}..={highest})"
  | tupletAlreadyOpen channel => s!"Channel {channel}: tuplet is already open"
  | tupletNotOpen channel => s!"Channel {channel}: tuplet end without a matching start"
  | unterminatedTuplet channel => s!"Channel {channel}: tuplet left open at end of channel"
  | tableValue effect key value =>
    s!"{effect.name} macro {key}: value {value} does not fit a table byte"
  | tableTooLong effect key length =>
    s!"{effect.name} macro {key}: {length} values do not fit one table part (max 255)"
  | loopTooFar channel offset =>
    s!"Channel {channel}: loop point at offset {offset} is beyond a 16-bit jump"
  | unknownTarget name => s!"Unknown target: {name}"
  | unknownChannel channel target => s!"Unknown channel '{channel}' for target {target}"
  | stream offset defect => s!"Command stream error at offset {offset}: {defect.message}"
  | promoted warning => s!"{warning.message} (warnings are treated as errors)"
  | script => "Song script error"
  | file => "IO error"

end Error

/-- A journal of warnings. A strict one stops at the first. -/
structure Journal where
  /-- Whether a warning stops the compilation. -/
  strict : Bool
  /-- The warnings so far. -/
  warnings : Array Warning
  deriving Repr

namespace Journal

/-- The journal before anything happened. -/
def new (strict : Bool) : Journal := ⟨strict, #[]⟩

/-- Writes a warning down, or stops. -/
def warn (w : Warning) : EStateM Error Journal Unit := fun j =>
  if j.strict then .error (.promoted w) j else .ok () { j with warnings := j.warnings.push w }

/-- Takes the warnings out. -/
def take : EStateM Error Journal (Array Warning) := fun j =>
  .ok j.warnings { j with warnings := #[] }

end Journal

end Chiptune
