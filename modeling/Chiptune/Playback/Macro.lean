import Chiptune.Macro.Param

/-!
# Macros at work

While a channel plays, macros drive some of its values. A macro steps with each frame or with
each note, as its operand says. A macro that steps with each frame starts anew with each note.

## Main definitions

* `PlayState` — the values of a channel that is playing.
* `Drive`, `LiveMacro` — what a macro drives, and a macro at work.
* `LiveMacro.step` — one step of a macro.
-/

namespace Chiptune

/-- The operators that have a volume of their own. -/
def operatorCount : Nat := 4

/-- The values of a channel that is playing. -/
structure PlayState where
  /-- The pitch class of the note. -/
  note : Int
  /-- The octave of the note. -/
  octave : Int
  /-- The timbre. -/
  duty : Int
  /-- The volume. -/
  volume : Int
  /-- Semitones on top of the note. -/
  noteOffset : Int
  /-- The detuning by vibrato. -/
  vibratoOffset : Int
  /-- The detuning by slides. -/
  freqOffset : Int
  /-- The volume of each operator. -/
  operatorVolume : Vector Int operatorCount
  /-- The operator whose volume slides; all of them if there is none. -/
  selectedOperator : Option Nat
  /-- Whether a note has just begun. -/
  noteOn : Bool
  /-- Whether a macro changed a value since then. -/
  valueChanged : Bool
  deriving Repr, DecidableEq

namespace PlayState

/-- The state before anything was played. -/
def initial : PlayState where
  note := 0
  octave := 0
  duty := 0
  volume := 0
  noteOffset := 0
  vibratoOffset := 0
  freqOffset := 0
  operatorVolume := Vector.replicate operatorCount 0
  selectedOperator := none
  noteOn := false
  valueChanged := false

instance : Inhabited PlayState := ⟨initial⟩

/-- The semitone that sounds. A sum beyond 32 bits is outside the model. -/
def effectiveNote (s : PlayState) : Int := s.octave * 12 + s.note + s.noteOffset

/-- Notes that a macro changed a value. At the start of a note that goes without saying. -/
def markChanged (s : PlayState) : PlayState :=
  if s.noteOn then s else { s with valueChanged := true }

/-- Notes a change if there is one. -/
def markIf (s : PlayState) (changed : Bool) : PlayState := if changed then s.markChanged else s

end PlayState

/-- When a macro steps. -/
inductive Pace where
  /-- With each frame. -/
  | frame
  /-- With each note. -/
  | note
  deriving DecidableEq, Repr

/-- What a macro drives. -/
inductive Drive where
  /-- The semitones on top of the note. A cumulative macro adds them up. -/
  | arpeggio (cumulative : Bool)
  /-- The detuning by vibrato. -/
  | vibrato
  /-- The detuning by slides. -/
  | freqSlide
  /-- The volume of one operator or all. -/
  | volumeSlide
  /-- The volume. -/
  | volume
  /-- The timbre. -/
  | duty
  deriving DecidableEq, Repr

namespace Drive

/-- Whether two macros drive the same value. -/
def sameValue : Drive → Drive → Bool
  | arpeggio _, arpeggio _ => true
  | a, b => a == b

end Drive

/-- A macro at work. -/
structure LiveMacro where
  /-- What it drives. -/
  drive : Drive
  /-- The operand that switched it on. -/
  operand : UInt8
  /-- Whether it is at work. -/
  enabled : Bool
  /-- Its place in the parameters. -/
  head : Playhead
  deriving Repr, DecidableEq

namespace LiveMacro

/-- A macro at its first parameter. -/
def new (drive : Drive) (operand : UInt8) (s : ParamSeq) : LiveMacro :=
  ⟨drive, operand, true, .start s⟩

/-- When the macro steps: the top bit of its operand says so. -/
def pace (m : LiveMacro) : Pace := if m.operand &&& 0x80 = 0 then .frame else .note

/-- The 32 low bits of a number, as a signed number. -/
def wrap (n : Int) : Int := n.bmod 0x100000000

/-- Sets the volume of an operator, or of all if none is selected. -/
def setOperators (s : PlayState) (value : Int) : PlayState :=
  match s.selectedOperator with
  | some i =>
    if h : i < operatorCount then { s with operatorVolume := s.operatorVolume.set i value }
    else { s with operatorVolume := .replicate operatorCount value }
  | none => { s with operatorVolume := .replicate operatorCount value }

/-- What a value does to the channel. With `anew` the macro starts anew, and a sum does too. A sum
beyond 32 bits is outside the model. -/
def act (d : Drive) (anew : Bool) (value : Int) (s : PlayState) : PlayState :=
  match d with
  | .arpeggio cumulative =>
    let offset := if cumulative && !anew then s.noteOffset + value else value
    { s with noteOffset := offset }.markIf (offset != s.noteOffset)
  | .freqSlide =>
    let offset := if anew then value else s.freqOffset + value
    { s with freqOffset := offset }.markIf (offset != s.freqOffset)
  | .vibrato => { s with vibratoOffset := value }.markIf (value != s.vibratoOffset)
  | .volumeSlide => (setOperators s value).markChanged
  | .volume => { s with volume := value }.markIf (value != s.volume)
  | .duty => { s with duty := value }.markIf (value != s.duty)

/-- Reads the next parameter and lets it do its work. A symbol does nothing. -/
def read (m : LiveMacro) (anew : Bool) (s : PlayState) : LiveMacro × PlayState :=
  let (param, head) := m.head.next
  let s := match param with
    | some (.int n) => act m.drive anew (wrap n) s
    | _ => s
  ({ m with head := head }, s)

/-- One step. With a frame only a macro of that pace steps; with a note all do, and those that
step with frames start anew. -/
def step (m : LiveMacro) (trigger : Pace) (s : PlayState) : LiveMacro × PlayState :=
  if !m.enabled then (m, s)
  else
    match trigger, m.pace with
    | .frame, .frame => m.read false s
    | .frame, .note => (m, s)
    | .note, .note => m.read false s
    | .note, .frame => { m with head := m.head.rewind }.read true s

end LiveMacro

end Chiptune
