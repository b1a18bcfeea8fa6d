import Chiptune.Macro.Registry
import Chiptune.Playback.Macro

/-!
# Playing a channel

The player does with a command stream what a driver does, and logs which note sounds when. It
fixes what the commands and the macros mean.

## Main definitions

* `PlayChannel` — the values of a channel, and the macros at work on them.
* `Player`, `Player.perform` — the state of a driver, and what a command does to it.
* `PlayLog`, `play` — what was played, and the playing of a stream.
-/

namespace Chiptune

/-- The values of a channel and the macros at work on them. -/
structure PlayChannel where
  /-- The values. -/
  state : PlayState
  /-- The macros, in the order in which they step. -/
  macros : List LiveMacro
  deriving Repr, DecidableEq

namespace PlayChannel

/-- A channel without macros. -/
def initial : PlayChannel := ⟨.initial, []⟩

/-- Takes away the macro that drives a value. -/
def detach (c : PlayChannel) (d : Drive) : PlayChannel :=
  { c with macros := c.macros.filter fun m => !m.drive.sameValue d }

/-- Puts a macro to work, in the place of one that drives the same value. -/
def attach (c : PlayChannel) (m : LiveMacro) : PlayChannel :=
  { c.detach m.drive with macros := (c.detach m.drive).macros ++ [m] }

/-- Lets macros step one after the other. -/
def stepMacros (trigger : Pace) : List LiveMacro → PlayState → List LiveMacro × PlayState
  | [], s => ([], s)
  | m :: ms, s =>
    let (m, s) := m.step trigger s
    let (ms, s) := stepMacros trigger ms s
    (m :: ms, s)

/-- Lets every macro step. -/
def stepAll (c : PlayChannel) (trigger : Pace) : PlayChannel :=
  let (macros, state) := stepMacros trigger c.macros c.state
  ⟨state, macros⟩

/-- Begins a note. -/
def startNote (c : PlayChannel) (note octave : Int) : PlayChannel :=
  { c with
    state := { c.state with
      note := note, octave := octave, noteOn := true, valueChanged := false } }.stepAll .note

/-- Goes on by a frame. -/
def updateFrame (c : PlayChannel) : PlayChannel :=
  { c with state := { c.state with noteOn := false, valueChanged := false } }.stepAll .frame

end PlayChannel

/-- A note that was played. -/
structure PlayedNote where
  /-- The frame in which it began. -/
  startFrame : Int
  /-- Its pitch class. -/
  pitch : UInt8
  /-- Its octave. -/
  octave : UInt8
  /-- For how many frames it sounded. -/
  frames : Int
  deriving Repr, DecidableEq

/-- What was played. -/
structure PlayLog where
  /-- The notes. -/
  notes : Array PlayedNote
  /-- The semitone in each frame in which a note sounds. -/
  pitchTrace : Array Int
  /-- The frames that passed. -/
  totalFrames : Int
  /-- The values of the channel at the end. -/
  state : PlayState
  deriving Repr

/-- The state of a driver that plays a channel. -/
structure Player where
  /-- Units in a frame. -/
  scale : Int
  /-- The octave of the notes to come. -/
  octave : UInt8
  /-- The delay used before. -/
  length : Int
  /-- The units that passed. The driver sees them through a counter of 64 bits. -/
  elapsed : Int
  /-- The channel. -/
  channel : PlayChannel
  /-- The notes so far. -/
  notes : Array PlayedNote
  /-- The semitones so far. -/
  pitchTrace : Array Int

namespace Player

/-- A driver that has played nothing. -/
def new (scale : Int) (octave : UInt8) : Player :=
  ⟨max scale 1, octave, 0, 0, .initial, #[], #[]⟩

/-- The 64 low bits of a number, as a signed number. -/
def wrap (n : Int) : Int := n.bmod 0x10000000000000000

/-- The units that passed, as the counter of the driver shows them. It has 64 bits and goes round:
the low bits of a sum are the same whether they are taken at the end or after each addition. -/
def counter (p : Player) : Int := wrap p.elapsed

/-- The frames that passed, by the counter. -/
def frame (p : Player) : Int := p.counter.tdiv p.scale

/-- Lets a note sound for more frames, and logs each of them. -/
def soundOn : Nat → Player → Player
  | 0, p => p
  | n + 1, p =>
    let channel := p.channel.updateFrame
    soundOn n { p with
      channel := channel, pitchTrace := p.pitchTrace.push channel.state.effectiveNote }

/-- Lets a note sound for some frames, and logs each of them. The macros have already stepped for
the first. -/
def sound (p : Player) (frames : Nat) : Player :=
  match frames with
  | 0 => p
  | n + 1 =>
    soundOn n { p with pitchTrace := p.pitchTrace.push p.channel.state.effectiveNote }

/-- Lets some units pass. -/
def pass (p : Player) (length : Int) : Player := { p with elapsed := p.elapsed + length }

/-- The counter adds in 64 bits. -/
theorem counter_pass (p : Player) (length : Int) :
    (p.pass length).counter = wrap (p.counter + length) :=
  Int.bmod_add_bmod.symm

/-- Plays a note with the delay used before. The frames, too, are counted in 64 bits. -/
def playNote (p : Player) (pitch : UInt8) : Player :=
  let begun := { p with channel := p.channel.startNote pitch.toNat p.octave.toNat }
  let after := begun.pass p.length
  let frames := wrap (after.frame - p.frame)
  let sounded := after.sound frames.toNat
  { sounded with notes := sounded.notes.push ⟨p.frame, pitch, p.octave, frames⟩ }

/-- What a macro of an effect drives, if it is modelled. -/
def driveOf? (effect : Effect) (cumulative : Bool) : Option Drive :=
  match effect with
  | .arpeggio => some (.arpeggio cumulative)
  | .vibrato => some .vibrato
  | .pitch => some .freqSlide
  | .volume => some .volume
  | .duty => some .duty
  | _ => none

/-- Whether a setting of a macro is on. -/
def isSet (m : Macro) (name : String) : Bool :=
  match m.extras.find? name with
  | some (.int n) => n != 0
  | _ => false

/-- The operator that a macro selects. -/
def operatorOf? (m : Macro) : Option Nat :=
  match m.extras.find? "operator" with
  | some (.int n) => if 0 ≤ n then some n.toNat else none
  | _ => none

/-- Puts a macro to work. A volume macro that slides drives operators instead of the volume. -/
def enable (p : Player) (effect : Effect) (operand : UInt8) (m : Macro) : Player :=
  if effect = .volume ∧ isSet m "slide" then
    let state := { p.channel.state with selectedOperator := operatorOf? m }
    let channel := { p.channel with state := state }
    { p with channel := channel.attach (.new .volumeSlide operand m.seq) }
  else
    match driveOf? effect (isSet m "cumulative") with
    | some d => { p with channel := p.channel.attach (.new d operand m.seq) }
    | none => p

/-- Takes away what drives the values of an effect. Values keep what was done to them. -/
def disable (p : Player) (effect : Effect) : Player :=
  let channel := match driveOf? effect false with
    | some d => p.channel.detach d
    | none => p.channel
  { p with channel := if effect = .volume then channel.detach .volumeSlide else channel }

/-- What a command does, unless it ends the channel. -/
def perform (bank : MacroBank) (p : Player) : Command → Except Error Player
  | .note pitch length => .ok ({ p with length := length }.playNote pitch)
  | .noteShort pitch => .ok (p.playNote pitch)
  | .noteUp pitch =>
    .ok ({ p with octave := if p.octave = 255 then 255 else p.octave + 1 }.playNote pitch)
  | .noteDown pitch =>
    .ok ({ p with octave := if p.octave = 0 then 0 else p.octave - 1 }.playNote pitch)
  | .rest length | .wait length => .ok ({ p with length := length }.pass length)
  | .restShort | .waitShort => .ok (p.pass p.length)
  | .octave o => .ok { p with octave := o }
  | .volume v =>
    let state := { p.channel.state with volume := v.toNat }
    .ok { p with channel := { p.channel with state := state } }
  | .effectOn effect operand =>
    let key := (operand &&& 0x7F).toNat
    match (bank.get effect).get? key with
    | some m => .ok (p.enable effect operand m)
    | none => .error (.undefinedMacro effect key)
  | .effectOff effect => .ok (p.disable effect)
  | .jump _ | .stop => .ok p

/-- Plays commands up to the first that ends the channel. -/
def performAll (bank : MacroBank) (p : Player) : List Command → Except Error Player
  | [] => .ok p
  | c :: cs =>
    if c.isTerminator then .ok p
    else
      match p.perform bank c with
      | .ok p => performAll bank p cs
      | .error e => .error e

/-- What was played so far. -/
def log (p : Player) : PlayLog := ⟨p.notes, p.pitchTrace, p.frame, p.channel.state⟩

end Player

/-- Plays the commands of a channel on a driver with `scale` units in a frame. -/
def play (bank : MacroBank) (scale : Int) (octave : UInt8) (cs : List Command) :
    Except Error PlayLog :=
  ((Player.new scale octave).performAll bank cs).map (·.log)

end Chiptune
