import Chiptune.Platform

/-!
# Options

A compilation has options from the song script and from the command line.

## Main definitions

* `Options` — the options.
* `Options.merge` — the options of a script under those of the command line.
-/

namespace Chiptune

/-- The options of a compilation. -/
structure Options where
  /-- Whether warnings stop it. -/
  warningsAsErrors : Bool
  /-- Whether macros that nothing selects are left out of the output. -/
  skipUnreferenced : Bool
  /-- The platform, if it is given. -/
  target : Option Platform
  /-- The assembler, if it is not the platform's. -/
  dialect : Option Dialect
  /-- The refresh rate, if it is not the platform's. -/
  refreshHz : Option Nat
  /-- The precision of delays, if it is not the platform's. -/
  fractional : Option Bool
  deriving DecidableEq, Repr

namespace Options

/-- The options when none are given. -/
def default : Options := ⟨false, false, none, none, none, none⟩

instance : Inhabited Options := ⟨default⟩

/-- Options with others on top of them. What is switched on stays on. -/
def merge (base upper : Options) : Options where
  warningsAsErrors := base.warningsAsErrors || upper.warningsAsErrors
  skipUnreferenced := base.skipUnreferenced || upper.skipUnreferenced
  target := upper.target <|> base.target
  dialect := upper.dialect <|> base.dialect
  refreshHz := upper.refreshHz <|> base.refreshHz
  fractional := upper.fractional <|> base.fractional

/-- The frame clock for a platform. -/
def clock (o : Options) (p : Platform) : FrameClock :=
  ⟨o.refreshHz.getD p.clock.refreshHz, o.fractional.getD p.clock.fractional⟩

end Options

end Chiptune
