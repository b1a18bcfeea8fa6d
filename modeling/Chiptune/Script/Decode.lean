import Chiptune.Json.Basic
import Chiptune.Script.Basic

/-!
# Scripts as JSON

How the parts of a script are read from JSON values. Names are case-sensitive, numbers have
to fit their field, and only some fields may be null or missing.

An event is kept whole until its kind is known, so that nothing in it may be garbled or nested
too deeply. Elsewhere an unknown field may hold anything. In return, the names inside of an event
have a few more spellings.

## Main definitions

* `Event.ofJson?` — reads an event.
* `MacroDef.ofJson?` — reads the definition of a macro.
* `Options.ofJson?` — reads options.
* `Script.ofJson?` — reads a script.
-/

namespace Chiptune

open Json (record? required? field?)

/-- Reads the name of an effect. -/
def Effect.ofJson? (r : Json.Reading) (j : Json) : Option Effect := (j.name? r).bind Effect.ofTag?

/-- Reads the name of a chip. -/
def Chip.ofJson? (j : Json) : Option Chip := (j.name? .direct).bind Chip.ofTag?

/-- Reads the name of a platform. -/
def Platform.ofJson? (j : Json) : Option Platform := (j.name? .direct).bind Platform.ofTag?

/-- Reads the name of a dialect. -/
def Dialect.ofJson? (j : Json) : Option Dialect := (j.name? .direct).bind Dialect.ofTag?

/-- Reads a parameter. -/
def Param.ofJson? : Json → Option Param
  | .string s => some (.text s)
  | j => j.int64?.map .int

/-- Reads a sequence of parameters. -/
def ParamSeq.ofJson? (j : Json) : Option ParamSeq := do
  let fields ← j.record? ["main", "loop"]
  let main ← field? fields "main" (Json.list? Param.ofJson?) []
  let loop ← field? fields "loop" (Json.list? Param.ofJson?) []
  return ⟨main, loop⟩

/-- Reads the policy at the beginning of an array. In a kept value it can also be given by its
place among the policies. -/
def Cutoff.policyItem? : Json.Reading → Json → Option String
  | _, .string tag => some tag
  | .kept, .int n => if 0 ≤ n then Cutoff.policies[n.toNat]?.map (·.1) else none
  | _, _ => none

/-- Reads a cutoff. -/
def Cutoff.ofJson? (r : Json.Reading) (j : Json) : Option Cutoff := do
  let policy? := match j with
    | .array _ => Cutoff.policyItem? r
    | _ => Json.name? r
  let fields ← j.record? ["policy", "value"]
  let policy ← required? fields "policy" policy?
  let value ← required? fields "value" Json.int32?
  Cutoff.ofPolicy? policy value

/-- Reads a frame clock. -/
def FrameClock.ofJson? (j : Json) : Option FrameClock := do
  let fields ← j.record? ["refresh_hz", "fractional"]
  let refreshHz ← required? fields "refresh_hz" Json.nat32?
  let fractional ← required? fields "fractional" Json.bool?
  return ⟨refreshHz, fractional⟩

namespace Event

/-- Reads an event with one number in it. -/
def ofNumber? {α : Type} (key : String) (number? : Json → Option α) (make : α → Event)
    (body : Json) : Option Event := do
  let fields ← body.record? [key]
  let n ← required? fields key number?
  return make n

/-- Reads an event without anything in it. -/
def ofNothing? (event : Event) (body : Json) : Option Event := do
  let _ ← body.record? []
  return event

/-- Reads an event of a kind from its other fields. -/
def ofBody? (kind : String) (body : Json) : Option Event :=
  match kind with
  | "note" => do
    let fields ← body.record? ["pitch", "ticks"]
    let pitch ← required? fields "pitch" Json.int32?
    let ticks ← required? fields "ticks" Json.nat32?
    return .note pitch ticks
  | "rest" => ofNumber? "ticks" Json.nat32? .rest body
  | "wait" => ofNumber? "ticks" Json.nat32? .wait body
  | "tie" => ofNumber? "ticks" Json.nat32? .tie body
  | "octave" => ofNumber? "octave" Json.int32? .octave body
  | "octave_up" => ofNothing? .octaveUp body
  | "octave_down" => ofNothing? .octaveDown body
  | "tempo" => ofNumber? "bpm" Json.nat32? .tempo body
  | "volume" => ofNumber? "volume" Json.int32? .volume body
  | "cutoff" => do
    let fields ← body.record? ["cutoff"]
    let cutoff ← required? fields "cutoff" (Cutoff.ofJson? .kept)
    return .cutoff cutoff
  | "tuplet_start" => ofNothing? .tupletStart body
  | "tuplet_end" => ofNumber? "ticks" Json.nat32? .tupletEnd body
  | "loop_point" => ofNothing? .loopPoint body
  | "block_end" => ofNothing? .blockEnd body
  | "effect" => do
    let fields ← body.record? ["kind", "key", "every_note"]
    let effect ← required? fields "kind" (Effect.ofJson? .kept)
    let key ← required? fields "key" Json.nat32?
    let everyNote ← field? fields "every_note" Json.bool? false
    return .effect effect key everyNote
  | "effect_off" => do
    let fields ← body.record? ["kind"]
    let effect ← required? fields "kind" (Effect.ofJson? .kept)
    return .effectOff effect
  | _ => none

/-- Reads an event. Its kind may come anywhere among its fields, or first in an array. In its
other fields no more than `room` arrays and objects may contain each other. -/
def ofJson? (room : Nat) : Json → Option Event
  | .object members =>
    match members.filter (·.1 == "cmd") with
    | [(_, .string kind)] =>
      let others := members.filter (·.1 != "cmd")
      if others.all fun m => m.2.keepable room then ofBody? kind (.object others) else none
    | _ => none
  | .array (.string kind :: items) =>
    if items.all (·.keepable room) then ofBody? kind (.array items) else none
  | _ => none

/-- Reads a list of events inside of `depth` arrays and objects. -/
def listOfJson? (depth : Nat) (j : Json) : Option (List Event) :=
  j.list? (ofJson? (Json.maxDepth - (depth + 2)))

end Event

/-- Reads the definition of a macro. -/
def MacroDef.ofJson? (j : Json) : Option MacroDef := do
  let fields ← j.record? ["kind", "key", "main", "loop", "extra"]
  let effect ← required? fields "kind" (Effect.ofJson? .direct)
  let key ← field? fields "key" (Json.nullable? Json.nat32?) none
  let main ← field? fields "main" (Json.list? Param.ofJson?) []
  let loop ← field? fields "loop" (Json.list? Param.ofJson?) []
  let extras ← field? fields "extra" (Json.members? Param.ofJson?) []
  return ⟨effect, key, ⟨main, loop⟩, .ofList extras⟩

/-- Reads options. -/
def Options.ofJson? (j : Json) : Option Options := do
  let fields ← j.record? ["warnings-as-errors", "skip-unreferenced-tables", "target", "syntax",
    "refresh-hz", "fractional-delays"]
  let strict ← field? fields "warnings-as-errors" Json.bool? false
  let skip ← field? fields "skip-unreferenced-tables" Json.bool? false
  let target ← field? fields "target" (Json.nullable? Platform.ofJson?) none
  let dialect ← field? fields "syntax" (Json.nullable? Dialect.ofJson?) none
  let refreshHz ← field? fields "refresh-hz" (Json.nullable? Json.nat32?) none
  let fractional ← field? fields "fractional-delays" (Json.nullable? Json.bool?) none
  return ⟨strict, skip, target, dialect, refreshHz, fractional⟩

/-- Reads a script. -/
def Script.ofJson? (j : Json) : Option Script := do
  let fields ← j.record? ["target", "tempo", "options", "effects", "channels", "pattern"]
  let target ← field? fields "target" (Json.nullable? Platform.ofJson?) none
  let tempo ← field? fields "tempo" Json.nat32? defaultTempo
  let options ← field? fields "options" Options.ofJson? .default
  let macros ← field? fields "effects" (Json.list? MacroDef.ofJson?) []
  let channels ← field? fields "channels" (Json.members? (Event.listOfJson? 2)) []
  let pattern ← field? fields "pattern" (Event.listOfJson? 1) []
  return ⟨target, tempo, options, macros, .ofList channels, pattern⟩

end Chiptune
