import Chiptune.Macro.Registry
import Chiptune.Options

/-!
# Sessions

What all channels of a song share: the options, the macros and the journal of warnings.

## Main definitions

* `Session` — the shared state.
* `MacroDef`, `Session.define` — macros as scripts define them.
-/

namespace Chiptune

/-- What all channels of a song share. -/
structure Session where
  /-- The options of the compilation. -/
  options : Options
  /-- The macros. -/
  macros : MacroBank
  /-- The warnings. -/
  journal : Journal

/-- A macro as a script defines it. -/
structure MacroDef where
  /-- The effect that it drives. -/
  effect : Effect
  /-- The key, if the script chose one. -/
  key : Option Nat
  /-- The parameters. -/
  seq : ParamSeq
  /-- Further settings. -/
  extras : Keyed String Param
  deriving Repr

namespace Session

/-- A session without macros and warnings. -/
def new (o : Options) : Session := ⟨o, .new, .new o.warningsAsErrors⟩

/-- Writes a warning into the journal. -/
def warn (w : Warning) : EStateM Error Session Unit := fun s =>
  match s.journal.warn w with
  | .ok a j => .ok a { s with journal := j }
  | .error e j => .error e { s with journal := j }

/-- Does something with the macros of an effect. -/
def onMacros {α : Type} (e : Effect) (act : EStateM Error Registry α) :
    EStateM Error Session α := fun s =>
  match MacroBank.on e act s.macros with
  | .ok a b => .ok a { s with macros := b }
  | .error err b => .error err { s with macros := b }

/-- Stores a macro: under its key, or under one that the registry finds for it. Its settings are
added to those that the key has already. -/
def defineMacro (d : MacroDef) : EStateM Error Session Unit :=
  onMacros d.effect do
    let key ← match d.key with
      | some key => Registry.define key d.seq
      | none => Registry.register d.seq
    d.extras.toList.forM fun e => Registry.setExtra key e.1 e.2

/-- Stores macros in order. -/
def defineMacros (ds : List MacroDef) : EStateM Error Session Unit := ds.forM defineMacro

end Session

end Chiptune
